/-
JSON text.

The compact form in which `serde_json::to_string` writes a value, and a reader for it.  The
rest of the model only says what it relies on, `JsonText.Lawful`; here is a format that has
it, `compactJson`, so that whole exchanges between processes can be run on texts.  Numbers
with a fraction are left out: they are written as `null`.
-/
import McpFederation.Model.Wire

namespace McpFederation

namespace JsonFormat

/-! ### Writing -/

/-- The characters with a short escape, as they are written after the backslash. -/
def shortEscape (c : Char) : Option Char :=
  if c = '"' then some '"'
  else if c = '\\' then some '\\'
  else if c.toNat = 8 then some 'b'
  else if c.toNat = 9 then some 't'
  else if c.toNat = 10 then some 'n'
  else if c.toNat = 12 then some 'f'
  else if c.toNat = 13 then some 'r'
  else none

def escapeChar (c : Char) : List Char :=
  match shortEscape c with
  | some e => ['\\', e]
  | none =>
      if c.toNat < 32 then
        ['\\', 'u', '0', '0', Nat.digitChar (c.toNat / 16), Nat.digitChar (c.toNat % 16)]
      else [c]

def printString (s : String) : List Char := '"' :: (s.toList.flatMap escapeChar ++ ['"'])

def printNumber : Number → List Char
  | .posInt n => Nat.toDigits 10 n.toNat
  | .negInt n => '-' :: Nat.toDigits 10 n.toInt.natAbs
  | .float _ => ['n', 'u', 'l', 'l']

mutual

def print : Value → List Char
  | .null => ['n', 'u', 'l', 'l']
  | .bool true => ['t', 'r', 'u', 'e']
  | .bool false => ['f', 'a', 'l', 's', 'e']
  | .number n => printNumber n
  | .string s => printString s
  | .array items => '[' :: printItems items
  | .object members => '{' :: printMembers members

/-- The items of an array, and what closes it. -/
def printItems : List Value → List Char
  | [] => [']']
  | [v] => print v ++ [']']
  | v :: rest => print v ++ ',' :: printItems rest

/-- The members of an object, and what closes it. -/
def printMembers : List (String × Value) → List Char
  | [] => ['}']
  | [member] => printMember member ++ ['}']
  | member :: rest => printMember member ++ ',' :: printMembers rest

def printMember : String × Value → List Char
  | (key, v) => printString key ++ ':' :: print v

end

/-! ### Reading -/

def hexValue (c : Char) : Nat :=
  if c.isDigit then c.toNat - '0'.toNat else c.toNat - 'a'.toNat + 10

/-- The character that a short escape stands for. -/
def unescapeChar (e : Char) : Option Char :=
  if e = 'b' then some (Char.ofNat 8)
  else if e = 't' then some '\t'
  else if e = 'n' then some '\n'
  else if e = 'f' then some (Char.ofNat 12)
  else if e = 'r' then some '\r'
  else if e = '"' ∨ e = '\\' ∨ e = '/' then some e
  else none

/-- A string from behind its opening quote on, and what follows it. -/
def readString : List Char → Option (List Char × List Char)
  | [] => none
  | c :: rest =>
      if c = '"' then some ([], rest)
      else if c = '\\' then
        match rest with
        | [] => none
        | e :: rest =>
            if e = 'u' then
              match rest with
              | h₃ :: h₂ :: h₁ :: h₀ :: rest => do
                  let code := ((hexValue h₃ * 16 + hexValue h₂) * 16 + hexValue h₁) * 16
                    + hexValue h₀
                  let (cs, rest) ← readString rest
                  pure (Char.ofNat code :: cs, rest)
              | _ => none
            else do
              let d ← unescapeChar e
              let (cs, rest) ← readString rest
              pure (d :: cs, rest)
      else do
        let (cs, rest) ← readString rest
        pure (c :: cs, rest)

/-- An integer without its sign, and what follows it. -/
def readDigits (s : List Char) : Option (Nat × List Char) :=
  let (digits, rest) := s.span Char.isDigit
  if digits = [] then none else some (Nat.ofDigitChars 10 digits 0, rest)

/-- The rest of a word. -/
def readWord (word : List Char) (v : Value) (s : List Char) : Option (Value × List Char) :=
  (Text.stripChars word s).map fun rest => (v, rest)

mutual

/-- A value, and what follows it; `n` bounds the length of its text. -/
def readValue : Nat → List Char → Option (Value × List Char)
  | 0, _ => none
  | _, [] => none
  | n + 1, c :: rest =>
      if c = 'n' then readWord ['u', 'l', 'l'] .null rest
      else if c = 't' then readWord ['r', 'u', 'e'] (.bool true) rest
      else if c = 'f' then readWord ['a', 'l', 's', 'e'] (.bool false) rest
      else if c = '"' then do
        let (cs, rest) ← readString rest
        pure (.string (String.ofList cs), rest)
      else if c = '[' then
        if rest.head? = some ']' then some (.array [], rest.tail)
        else do
          let (items, rest) ← readItems n rest
          pure (.array items, rest)
      else if c = '{' then
        if rest.head? = some '}' then some (.obj [], rest.tail)
        else do
          let (members, rest) ← readMembers n rest
          pure (.obj members, rest)
      else if c = '-' then do
        let (i, rest) ← readDigits rest
        pure (.number (.negInt (Int64.ofInt (-(i : Int)))), rest)
      else do
        let (i, rest) ← readDigits (c :: rest)
        pure (.number (.posInt (UInt64.ofNat i)), rest)

def readItems : Nat → List Char → Option (List Value × List Char)
  | 0, _ => none
  | n + 1, s => do
      let (v, rest) ← readValue n s
      match rest with
      | [] => none
      | c :: rest =>
          if c = ',' then do
            let (vs, rest) ← readItems n rest
            pure (v :: vs, rest)
          else if c = ']' then pure ([v], rest)
          else none

def readMembers : Nat → List Char → Option (List (String × Value) × List Char)
  | 0, _ => none
  | n + 1, s => do
      let quoted ← Text.stripChars ['"'] s
      let (key, rest) ← readString quoted
      let rest ← Text.stripChars [':'] rest
      let (v, rest) ← readValue n rest
      match rest with
      | [] => none
      | c :: rest =>
          if c = ',' then do
            let (members, rest) ← readMembers n rest
            pure ((String.ofList key, v) :: members, rest)
          else if c = '}' then pure ([(String.ofList key, v)], rest)
          else none

end

/-- A whole text. -/
def parse (s : List Char) : Option Value :=
  match readValue (s.length + 1) s with
  | some (v, []) => some v
  | _ => none

end JsonFormat

/-- A response with its members in the order of the struct's fields. -/
def responseMembers (r : JsonRpcResponse) : List (String × Value) :=
  [("jsonrpc", .string r.jsonrpc)] ++ optionalMember "id" r.id
    ++ optionalMember "result" r.result ++ optionalMember "error" (r.error.map errorValue)

/-- The compact format.  A request is read through a value. -/
def compactJson : JsonText where
  value v := String.ofList (JsonFormat.print v)
  response r := String.ofList (JsonFormat.print (.object (responseMembers r)))
  other _ := "null"
  request s :=
    match (JsonFormat.parse s.toList).bind requestOf with
    | some r => .ok r
    | none => .error "expected value at line 1 column 1"

/-- A client that reads the format, and no files. -/
def compactEnv : ClientEnv where
  readFile := fun _ => .error "not found"
  jsonFromSlice bytes := (String.fromUTF8? bytes).bind fun s => JsonFormat.parse s.toList
  statusText n := toString n

end McpFederation
