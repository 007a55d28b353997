import Flowgraph.Json.Reader
import Flowgraph.Toml.Scalar

namespace Flowgraph.Toml

def isSpace (c : Char) : Bool := c = ' ' || c = '\t'

def skipSpace (cs : List Char) : List Char := cs.dropWhile isSpace

def isPlain (c : Char) : Bool := c = '\t' || (0x20 ≤ c.toNat && c.toNat ≤ 0x7E) || 0x80 ≤ c.toNat

def skipComment : List Char → List Char
  | '#' :: r => r.dropWhile isPlain
  | cs => cs

def newline? : List Char → Option (List Char)
  | '\n' :: r => some r
  | '\r' :: '\n' :: r => some r
  | _ => none

def endLine? (cs : List Char) : Option (List Char) :=
  match skipComment (skipSpace cs) with
  | [] => some []
  | r => newline? r

def skipLines : (fuel : Nat) → List Char → List Char
  | 0, cs => cs
  | fuel + 1, cs =>
      let r := skipComment (skipSpace cs)
      match newline? r with
      | some r => skipLines fuel r
      | none => r

def isBareKeyChar (c : Char) : Bool := c.isAlphanum || c = '_' || c = '-'

def coded? (width : Nat) (cs : List Char) : Option (Char × List Char) :=
  let ds := cs.take width
  if ds.length = width && ds.all isHexDigit then
    (Json.charOf? (ofDigits 16 ds)).map (·, cs.drop width)
  else none

def escape? : List Char → Option (Char × List Char)
  | 'b' :: r => some ('\x08', r)
  | 't' :: r => some ('\t', r)
  | 'n' :: r => some ('\n', r)
  | 'f' :: r => some ('\x0c', r)
  | 'r' :: r => some ('\r', r)
  | '"' :: r => some ('"', r)
  | '\\' :: r => some ('\\', r)
  | 'u' :: r => coded? 4 r
  | 'U' :: r => coded? 8 r
  | _ => none

def basicRest : (fuel : Nat) → List Char → List Char → Option (String × List Char)
  | 0, _, _ => none
  | _, _, [] => none
  | fuel + 1, acc, c :: r =>
      if c = '"' then some (String.ofList acc.reverse, r)
      else if c = '\\' then
        match escape? r with
        | some (d, r) => basicRest fuel (d :: acc) r
        | none => none
      else if isPlain c then basicRest fuel (c :: acc) r
      else none

def literalRest : List Char → Option (String × List Char)
  | cs =>
      match Text.splitWhile (fun c => isPlain c && c ≠ '\'') cs with
      | (s, '\'' :: r) => some (String.ofList s, r)
      | _ => none

def quoteRun (q : Char) (cs : List Char) : Nat :=
  -- three close a string of several lines, and two more may belong to it
  ((cs.take 5).takeWhile (· = q)).length

def skipBreaks : List Char → List Char
  | '\r' :: '\n' :: r => skipBreaks r
  | c :: r => if isSpace c || c = '\n' then skipBreaks r else c :: r
  | [] => []

def longRest (q : Char) : (fuel : Nat) → List Char → List Char → Option (String × List Char)
  | 0, _, _ => none
  | _, _, [] => none
  | fuel + 1, acc, c :: r =>
      if c = q then
        let n := quoteRun q (c :: r)
        if 3 ≤ n then
          some (String.ofList (List.replicate (n - 3) q ++ acc).reverse, (c :: r).drop n)
        else longRest q fuel (c :: acc) r
      else if c = '\\' && q = '"' then
        match escape? r with
        | some (d, r) => longRest q fuel (d :: acc) r
        | none =>
            match newline? (skipSpace r) with
            | some r => longRest q fuel acc (skipBreaks r)
            | none => none
      else
        match newline? (c :: r) with
        | some r => longRest q fuel ('\n' :: acc) r
        | none => if isPlain c then longRest q fuel (c :: acc) r else none

def dropNewline (cs : List Char) : List Char := (newline? cs).getD cs

def text? (cs : List Char) : Option (String × List Char) :=
  match cs with
  | '"' :: '"' :: '"' :: r => longRest '"' (r.length + 1) [] (dropNewline r)
  | '\'' :: '\'' :: '\'' :: r => longRest '\'' (r.length + 1) [] (dropNewline r)
  | '"' :: r => basicRest (r.length + 1) [] r
  | '\'' :: r => literalRest r
  | _ => none

def simpleKey? (cs : List Char) : Option (String × List Char) :=
  match cs with
  | '"' :: r => basicRest (r.length + 1) [] r
  | '\'' :: r => literalRest r
  | _ =>
      match Text.splitWhile isBareKeyChar cs with
      | ([], _) => none
      | (k, r) => some (String.ofList k, r)

def depthLimit : Nat := 79

def keyOf? : (parts : Nat) → List Char → Option ((List String × String) × List Char)
  | 0, _ => none
  | parts + 1, cs =>
      match simpleKey? cs with
      | none => none
      | some (k, r) =>
          match skipSpace r with
          | '.' :: r =>
              (keyOf? parts (skipSpace r)).map fun ((path, last), r) => ((k :: path, last), r)
          | r => some (([], k), r)

def key? : List Char → Option ((List String × String) × List Char) := keyOf? depthLimit

def isWordChar (c : Char) : Bool := c.isAlphanum || "+-_.:".toList.contains c

def scalarWord (cs : List Char) : List Char × List Char :=
  let (word, r) := Text.splitWhile isWordChar cs
  match date? word, r with
  | some [], ' ' :: d :: r' =>
      if d.isDigit then
        let (clock, r) := Text.splitWhile isWordChar (d :: r')
        (word ++ ' ' :: clock, r)
      else (word, r)
  | _, _ => (word, r)

mutual

def value? : (fuel depth : Nat) → List Char → Option (Toml × List Char)
  | 0, _, _ => none
  | fuel + 1, depth, cs =>
      match cs, depth with
      | '"' :: _, _ => (text? cs).map fun (s, r) => (.str s, r)
      | '\'' :: _, _ => (text? cs).map fun (s, r) => (.str s, r)
      | '[' :: _, 0 => none
      | '[' :: r, depth + 1 => (items? fuel depth [] r).map fun (l, r) => (.arr l, r)
      | '\x7b' :: _, 0 => none
      | '\x7b' :: r, depth + 1 =>
          match skipSpace r with
          | '\x7d' :: r => some (.table .inline [], r)
          | r => (pairs? fuel depth [] r).map fun (es, r) => (.table .inline es, r)
      | _, _ =>
          let (word, r) := scalarWord cs
          (scalar? word).map (·, r)

def items? : (fuel depth : Nat) → List Toml → List Char → Option (List Toml × List Char)
  | 0, _, _, _ => none
  | fuel + 1, depth, acc, cs =>
      match skipLines cs.length cs with
      | ']' :: r => some (acc, r)
      | r =>
          match value? fuel depth r with
          | none => none
          | some (v, r) =>
              match skipLines r.length r with
              | ',' :: r => items? fuel depth (acc ++ [v]) r
              | ']' :: r => some (acc ++ [v], r)
              | _ => none

def pairs? : (fuel depth : Nat) → Entries → List Char → Option (Entries × List Char)
  | 0, _, _, _ => none
  | fuel + 1, depth, es, cs =>
      match key? cs with
      | some ((path, k), '=' :: r) =>
          match value? fuel depth (skipSpace r) with
          | none => none
          | some (v, r) =>
              match addValue path k v .inline es with
              | none => none
              | some es =>
                  match skipSpace r with
                  | ',' :: r => pairs? fuel depth es (skipSpace r)
                  | '\x7d' :: r => some (es, r)
                  | _ => none
      | _ => none

end

def line? (header : List String) (es : Entries) (cs : List Char) :
    Option (List String × Entries × List Char) :=
  match cs with
  | '[' :: '[' :: r => do
      let ((path, k), r) ← key? (skipSpace r)
      match r with
      | ']' :: ']' :: r => some (path ++ [k], ← openElement path k es, ← endLine? r)
      | _ => none
  | '[' :: r => do
      let ((path, k), r) ← key? (skipSpace r)
      match r with
      | ']' :: r => some (path ++ [k], ← openTable path k es, ← endLine? r)
      | _ => none
  | _ => do
      let ((path, k), r) ← key? cs
      match r with
      | '=' :: r =>
          let r := skipSpace r
          let (v, r) ← value? (2 * r.length + 2) depthLimit r
          some (header, ← addUnder header path k v es, ← endLine? r)
      | _ => none

def lines? : (fuel : Nat) → List String → Entries → List Char → Option Entries
  | 0, _, _, _ => none
  | fuel + 1, header, es, cs =>
      match skipSpace (skipLines cs.length cs) with
      | [] => some es
      | r =>
          match line? header es r with
          | some (header, es, r) => lines? fuel header es r
          | none => none

def read (s : String) : Option Entries :=
  let cs := match s.toList with
    | '\ufeff' :: r => r
    | cs => cs
  lines? (cs.length + 1) [] [] cs

end Flowgraph.Toml
