/-
Crossover.Command.Usage — what the program says about itself.
-/
namespace Crossover.Command

def versionLine : String :=
  "sma-walkforward 0.1.0"

def usageLines : List String :=
  ["Walk-forward optimizer for SMA crossover",
    "",
    "Usage:",
    "  sma-walkforward optimize --data <DATA> [OPTIONS]",
    "  sma-walkforward score --data <DATA> --fast <FAST> --slow <SLOW>",
    "  sma-walkforward help [COMMAND]",
    "",
    "Options of optimize:",
    "  -d, --data <DATA>                    CSV file with a 'close' column",
    "  -c, --config <CONFIG>                TOML file with settings",
    "      --symbol <SYMBOL>                symbol for the strategy file",
    "      --train-window <TRAIN_WINDOW>    bars to train on",
    "      --test-window <TEST_WINDOW>      bars to test on",
    "      --fast-range <FAST_RANGE>        fast periods, with commas between them",
    "      --slow-range <SLOW_RANGE>        slow periods, with commas between them",
    "      --summary-csv <SUMMARY_CSV>      where to write the summary (.csv or .json)",
    "      --config-output <CONFIG_OUTPUT>  where to write the strategy file",
    "",
    "  -h, --help     show this text",
    "  -V, --version  show the version"]

end Crossover.Command
