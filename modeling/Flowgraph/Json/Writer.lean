import Flowgraph.Json.Number

namespace Flowgraph.Json

def hexDigit (n : Nat) : Char := Nat.digitChar (n % 16)

def escape (c : Char) : List Char :=
  if c = '"' then ['\\', '"']
  else if c = '\\' then ['\\', '\\']
  else if c = '\n' then ['\\', 'n']
  else if c = '\r' then ['\\', 'r']
  else if c = '\t' then ['\\', 't']
  else if c.toNat < 0x20 then ['\\', 'u', '0', '0', hexDigit (c.toNat / 16), hexDigit c.toNat]
  else [c]

def writeString (s : String) : String := String.ofList ('"' :: (s.toList.flatMap escape ++ ['"']))

mutual

def write : Json → String
  | .null => "null"
  | .bool b => if b then "true" else "false"
  | .int n => toString n
  | .float x => Number.floatText x
  | .str s => writeString s
  | .arr items => "[" ++ ",".intercalate (writeItems items) ++ "]"
  | .obj fields => "\x7b" ++ ",".intercalate (writeFields fields) ++ "\x7d"

def writeItems : List Json → List String
  | [] => []
  | v :: rest => write v :: writeItems rest

def writeFields : Fields → List String
  | [] => []
  | (k, v) :: rest => (writeString k ++ ":" ++ write v) :: writeFields rest

end

end Flowgraph.Json
