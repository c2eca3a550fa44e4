namespace ThemeSheet

inductive Level
  | debug
  | info
  | warning
  | error
deriving DecidableEq, Repr

def Level.label : Level → String
  | debug => "DEBUG"
  | info => "INFO"
  | warning => "WARNING"
  | error => "ERROR"

def Level.rank : Level → Nat
  | debug => 0
  | info => 1
  | warning => 2
  | error => 3

structure LogRecord where
  level : Level
  logger : String
  message : String
deriving DecidableEq, Repr

def LogRecord.reaches (threshold : Level) (record : LogRecord) : Bool :=
  threshold.rank ≤ record.level.rank

end ThemeSheet
