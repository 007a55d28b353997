import Flowgraph.Json.Number

namespace Flowgraph.Json

def isGap (c : Char) : Bool := c = ' ' || c = '\n' || c = '\t' || c = '\r'

def skipGap (cs : List Char) : List Char := cs.dropWhile isGap

def hexValue (c : Char) : Option Nat :=
  if c.isDigit then some (c.toNat - '0'.toNat)
  else if 'a' ≤ c ∧ c ≤ 'f' then some (c.toNat - 'a'.toNat + 10)
  else if 'A' ≤ c ∧ c ≤ 'F' then some (c.toNat - 'A'.toNat + 10)
  else none

def readUnit : List Char → Option (Nat × List Char)
  | a :: b :: c :: d :: r => do
      let n := 16 * (16 * (16 * (← hexValue a) + (← hexValue b)) + (← hexValue c)) + (← hexValue d)
      some (n, r)
  | _ => none

def charOf? (n : Nat) : Option Char := if h : n.isValidChar then some (Char.ofNatAux n h) else none

def readCoded (cs : List Char) : Option (Char × List Char) := do
  let (n, r) ← readUnit cs
  if 0xD800 ≤ n ∧ n < 0xDC00 then
    match r with
    | '\\' :: 'u' :: r =>
        let (m, r) ← readUnit r
        if 0xDC00 ≤ m ∧ m < 0xE000 then
          (charOf? (0x10000 + (n - 0xD800) * 0x400 + (m - 0xDC00))).map (·, r)
        else none
    | _ => none
  else (charOf? n).map (·, r)

def plainEscape : Char → Option Char
  | '"' => some '"'
  | '\\' => some '\\'
  | '/' => some '/'
  | 'b' => some '\x08'
  | 'f' => some '\x0c'
  | 'n' => some '\n'
  | 'r' => some '\r'
  | 't' => some '\t'
  | _ => none

def readString : Nat → List Char → List Char → Option (String × List Char)
  | 0, _, _ => none
  | _, _, [] => none
  | fuel + 1, acc, c :: r =>
      if c = '"' then some (String.ofList acc.reverse, r)
      else if c = '\\' then
        match r with
        | 'u' :: r =>
            match readCoded r with
            | some (d, r) => readString fuel (d :: acc) r
            | none => none
        | e :: r =>
            match plainEscape e with
            | some d => readString fuel (d :: acc) r
            | none => none
        | [] => none
      else if c.toNat < 0x20 then none
      else readString fuel (c :: acc) r

def readWord (word : List Char) (value : Json) (cs : List Char) : Option (Json × List Char) :=
  if word.isPrefixOf cs then some (value, cs.drop word.length) else none

mutual

def readValue : Nat → List Char → Option (Json × List Char)
  | 0, _ => none
  | fuel + 1, cs =>
      match cs with
      | 'n' :: _ => readWord ['n', 'u', 'l', 'l'] .null cs
      | 't' :: _ => readWord ['t', 'r', 'u', 'e'] (.bool true) cs
      | 'f' :: _ => readWord ['f', 'a', 'l', 's', 'e'] (.bool false) cs
      | '"' :: r => (readString (r.length + 1) [] r).map fun (s, r) => (.str s, r)
      | '[' :: r =>
          match skipGap r with
          | ']' :: r => some (.arr [], r)
          | r => readItems fuel [] r
      | '\x7b' :: r =>
          match skipGap r with
          | '\x7d' :: r => some (.obj [], r)
          | r => readFields fuel [] r
      | _ => Number.read cs

def readItems : Nat → List Json → List Char → Option (Json × List Char)
  | 0, _, _ => none
  | fuel + 1, acc, cs =>
      match readValue fuel cs with
      | none => none
      | some (v, r) =>
          match skipGap r with
          | ',' :: r => readItems fuel (v :: acc) (skipGap r)
          | ']' :: r => some (.arr (v :: acc).reverse, r)
          | _ => none

def readFields : Nat → Fields → List Char → Option (Json × List Char)
  | 0, _, _ => none
  | fuel + 1, acc, cs =>
      match cs with
      | '"' :: r =>
          match readString (r.length + 1) [] r with
          | none => none
          | some (k, r) =>
              match skipGap r with
              | ':' :: r =>
                  match readValue fuel (skipGap r) with
                  | none => none
                  | some (v, r) =>
                      match skipGap r with
                      | ',' :: r => readFields fuel (Keyed.put k v acc) (skipGap r)
                      | '\x7d' :: r => some (.obj (Keyed.put k v acc), r)
                      | _ => none
              | _ => none
      | _ => none

end

def read (s : String) : Option Json :=
  let cs := skipGap s.toList
  match readValue (2 * cs.length + 2) cs with
  | some (v, r) => if (skipGap r).isEmpty then some v else none
  | none => none

end Flowgraph.Json
