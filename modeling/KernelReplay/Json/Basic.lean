/-
  JSON values as far as their text goes. A reader that stops at the first fault has to know what
  came before it, so a value may break off: an array or object that is not closed ends where its text
  fails, and `torn` stands for text that is no value at all. Values that break nowhere are printed by
  `render`.
-/

namespace KernelReplay

/-- A JSON value, as far as its text goes. -/
inductive Json
  | null
  | bool (value : Bool)
  /-- A number from -2^63 to 2^64 - 1, written without point or exponent, and not `-0`. -/
  | integer (value : Int)
  /-- Any other number, and whether it is too large for a double. -/
  | real (spelling : String) (tooLarge : Bool)
  /-- A text, unless an escape in it is half of a surrogate pair. -/
  | text (content : Option String)
  | array (items : List Json) (closed : Bool)
  | object (members : List (Option String × Json)) (closed : Bool)
  /-- Text that is no value. -/
  | torn
  deriving Repr, Inhabited

namespace Json

/-- A text value. -/
def ofString (s : String) : Json := text (some s)

/-- A whole array. -/
def ofList (items : List Json) : Json := array items true

/-- A whole object. -/
def ofMembers (members : List (String × Json)) : Json :=
  object (members.map fun m => (some m.1, m.2)) true

/-- The value, or `null`. -/
def ofOption {α : Type} (f : α → Json) : Option α → Json
  | some a => f a
  | none => null

mutual

/-- Whether a value can be read whole, where its containers nest at most `depth` deep. -/
def isWhole (depth : Nat) : Json → Bool
  | null | bool _ | integer _ => true
  | real _ tooLarge => !tooLarge
  | text content => content.isSome
  | array items closed => 0 < depth && allWhole (depth - 1) items && closed
  | object members closed => 0 < depth && membersWhole (depth - 1) members && closed
  | torn => false

/-- Whether each of a list of values can be read whole. -/
def allWhole (depth : Nat) : List Json → Bool
  | [] => true
  | v :: rest => v.isWhole depth && allWhole depth rest

/-- Whether each of a list of members can be read whole. -/
def membersWhole (depth : Nat) : List (Option String × Json) → Bool
  | [] => true
  | (key, v) :: rest => key.isSome && v.isWhole depth && membersWhole depth rest

end

mutual

/-- Whether a value can be skipped: its text is one by the grammar, whatever its numbers, escapes
and depth. -/
def canSkip : Json → Bool
  | null | bool _ | integer _ | real .. | text _ => true
  | array items closed => allSkip items && closed
  | object members closed => membersSkip members && closed
  | torn => false

/-- Whether each of a list of values can be skipped. -/
def allSkip : List Json → Bool
  | [] => true
  | v :: rest => v.canSkip && allSkip rest

/-- Whether each of a list of members can be skipped. -/
def membersSkip : List (Option String × Json) → Bool
  | [] => true
  | (_, v) :: rest => v.canSkip && membersSkip rest

end

/-- Whether a value that is no container breaks off. -/
def isBrokenScalar : Json → Bool
  | torn | real _ true | text none => true
  | _ => false

/-- One lower-case hexadecimal digit. -/
def hexDigit (n : Nat) : Char := "0123456789abcdef".toList.getD n '0'

/-- The letter that stands for a character after a backslash. -/
def escapeLetter? (c : Char) : Option Char :=
  if c = '"' then some '"'
  else if c = '\\' then some '\\'
  else if c = '\x08' then some 'b'
  else if c = '\t' then some 't'
  else if c = '\n' then some 'n'
  else if c = '\x0c' then some 'f'
  else if c = '\r' then some 'r'
  else none

/-- A character inside a text. -/
def escape (c : Char) : List Char :=
  if let some letter := escapeLetter? c then ['\\', letter]
  else if c.toNat < 0x20 then
    ['\\', 'u', '0', '0', hexDigit (c.toNat / 16), hexDigit (c.toNat % 16)]
  else [c]

/-- A text in quotes. -/
def quote (s : String) : String := "\"" ++ .ofList (s.toList.flatMap escape) ++ "\""

mutual

/-- The text of a value, without any space. -/
def render : Json → String
  | null => "null"
  | bool true => "true"
  | bool false => "false"
  | integer i => toString i
  | real spelling _ => spelling
  | text (some s) => quote s
  | text none => "\"\\ud800\""
  | array items closed => "[" ++ renderItems items ++ if closed then "]" else ""
  | object members closed => "\x7b" ++ renderMembers members ++ if closed then "\x7d" else ""
  | torn => ""

/-- The texts of values, with commas between them. -/
def renderItems : List Json → String
  | [] => ""
  | [v] => v.render
  | v :: rest => v.render ++ "," ++ renderItems rest

/-- The texts of members, with commas between them. -/
def renderMembers : List (Option String × Json) → String
  | [] => ""
  | [(key, v)] => renderKey key ++ ":" ++ v.render
  | (key, v) :: rest => renderKey key ++ ":" ++ v.render ++ "," ++ renderMembers rest

/-- The text of a key. -/
def renderKey : Option String → String
  | some s => quote s
  | none => "\"\\ud800\""

end

end Json

/-- Why a text is not what it should be. -/
inductive JsonFault
  /-- The text is no JSON. -/
  | malformed
  /-- The text is JSON of another shape. -/
  | mismatch
  deriving DecidableEq, Repr, Inhabited

end KernelReplay
