import KernelReplay.Json.Token

/-
  Reading a JSON text into a value. The reader takes values from the front of a list of tokens and
  shows that fewer are left. Where the tokens fail it gives what it has, as values that break off.
-/

namespace KernelReplay.Json

/-- What reading from the front of a list of tokens gives. -/
inductive Reading (α : Type) (ts : List Token)
  /-- The tokens fail, after a part was read. -/
  | torn (part : α)
  | whole (value : α) (rest : List Token) (shorter : rest.length < ts.length)

/-- Whether the bracket that ends an array comes next. -/
def endsArray : List Token → Bool
  | .closeArray :: _ => true
  | _ => false

/-- Whether the bracket that ends an object comes next. -/
def endsObject : List Token → Bool
  | .closeObject :: _ => true
  | _ => false

mutual

/-- Reads one value. -/
def readValue (ts : List Token) : Reading Json ts :=
  match ts with
  | [] => .torn .torn
  | .scalar v :: rest => .whole v rest (by simp)
  | .openArray :: rest =>
    if endsArray rest then .whole (.array [] true) rest.tail (by grind)
    else match readItems rest with
      | .torn items => .torn (.array items false)
      | .whole items after h => .whole (.array items true) after (by grind)
  | .openObject :: rest =>
    if endsObject rest then .whole (.object [] true) rest.tail (by grind)
    else match readMembers rest with
      | .torn members => .torn (.object members false)
      | .whole members after h => .whole (.object members true) after (by grind)
  | _ :: _ => .torn .torn
termination_by (ts.length, 0)

/-- Reads the items of an array, of which there is at least one, and the bracket after them. -/
def readItems (ts : List Token) : Reading (List Json) ts :=
  match readValue ts with
  | .torn v => .torn [v]
  | .whole v rest h =>
    match rest, h with
    | .closeArray :: after, h => .whole [v] after (by grind)
    | .comma :: after, h =>
      match readItems after with
      | .torn items => .torn (v :: items)
      | .whole items after' h' => .whole (v :: items) after' (by grind)
    | _, _ => .torn [v]
termination_by (ts.length, 1)
decreasing_by
  · exact Prod.Lex.right _ (by omega)
  · exact Prod.Lex.left _ _ (by grind)

/-- Reads the members of an object, of which there is at least one, and the bracket after them. -/
def readMembers (ts : List Token) : Reading (List (Option String × Json)) ts :=
  match ts with
  | .scalar (.text key) :: .colon :: rest =>
    match readValue rest with
    | .torn v => .torn [(key, v)]
    | .whole v left h =>
      match left, h with
      | .closeObject :: after, h => .whole [(key, v)] after (by grind)
      | .comma :: after, h =>
        match readMembers after with
        | .torn members => .torn ((key, v) :: members)
        | .whole members after' h' => .whole ((key, v) :: members) after' (by grind)
      | _, _ => .torn [(key, v)]
  | .scalar (.text key) :: _ => .torn [(key, .torn)]
  | _ => .torn []
termination_by (ts.length, 1)
decreasing_by
  · exact Prod.Lex.left _ _ (by grind)
  · exact Prod.Lex.left _ _ (by grind)

end

/-- The value at the start of a text, and whether nothing but white space follows it. -/
def ofChars (cs : List Char) : Json × Bool :=
  match readValue (tokens cs) with
  | .torn v => (v, false)
  | .whole v rest _ => (v, rest.isEmpty)

/-- The value at the start of a text, and whether nothing but white space follows it. -/
def ofText (text : String) : Json × Bool := ofChars text.toList

end KernelReplay.Json
