namespace Tunebook.Command

structure Arguments where
  file : String
  output : Option String
  config : Option String
  velocity : Option UInt8
  channel : Option UInt8
  program : Option UInt8
  tempo : Option UInt32
  check : Bool
  events : Bool
  verbosity : Nat
deriving DecidableEq

/-- Why there are no arguments to run with. -/
inductive Stop where
  | usage
  | help
  | version
deriving DecidableEq

/-- The least and the greatest value of each option that takes a byte. -/
structure Ranges where
  velocity : UInt8 × UInt8
  channel : UInt8 × UInt8
  program : UInt8 × UInt8

def Arguments.ranges : Ranges where
  velocity := (1, 127)
  channel := (0, 15)
  program := (0, 127)

end Tunebook.Command
