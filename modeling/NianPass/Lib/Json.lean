import Mathlib.Tactic

/-
  JSON documents and their compact text.

  A document is a tree; its only numbers are natural ones. `render` writes it without
  blanks and escapes what a string literal must not hold. `read` reads what `render`
  writes (`read_render`), so the text of a document is its own. How many bytes the text
  takes is bounded by what the strings hold (`bytes_literal_le`).
-/
namespace NianPass

inductive Json where
  | null
  | bool (value : Bool)
  | number (value : Nat)
  | string (value : String)
  | array (items : List Json)
  | object (fields : List (String × Json))

namespace Json

/-! ## Writing -/

/-- A character inside a string literal. -/
def escape (char : Char) : List Char :=
  if char = '"' then ['\\', '"']
  else if char = '\\' then ['\\', '\\']
  else if char = '\n' then ['\\', 'n']
  else if char = '\r' then ['\\', 'r']
  else if char = '\t' then ['\\', 't']
  else if char.toNat = 8 then ['\\', 'b']
  else if char.toNat = 12 then ['\\', 'f']
  else if char.toNat < 32 then
    ['\\', 'u', '0', '0', Nat.digitChar (char.toNat / 16), Nat.digitChar (char.toNat % 16)]
  else [char]

/-- The text of a string after its opening quote. -/
def literal (text : List Char) : List Char := text.flatMap escape ++ ['"']

mutual
def render : Json → List Char
  | .null => ['n', 'u', 'l', 'l']
  | .bool true => ['t', 'r', 'u', 'e']
  | .bool false => ['f', 'a', 'l', 's', 'e']
  | .number value => Nat.toDigits 10 value
  | .string value => '"' :: literal value.toList
  | .array [] => ['[', ']']
  | .array (item :: items) => '[' :: (render item ++ renderItems items)
  | .object [] => ['{', '}']
  | .object (field :: fields) => '{' :: (renderField field ++ renderFields fields)
termination_by structural value => value
/-- The items after the first. -/
def renderItems : List Json → List Char
  | [] => [']']
  | item :: items => ',' :: (render item ++ renderItems items)
termination_by structural items => items
/-- The fields after the first. -/
def renderFields : List (String × Json) → List Char
  | [] => ['}']
  | field :: fields => ',' :: (renderField field ++ renderFields fields)
termination_by structural fields => fields
def renderField : String × Json → List Char
  | (key, value) => '"' :: (literal key.toList ++ ':' :: render value)
termination_by structural field => field
end

/-! ## Reading -/

/-- The value of a digit of `Nat.digitChar`. -/
def digitValue (char : Char) : Nat := if char.isDigit then char.toNat - 48 else char.toNat - 87

/-- The text of a literal up to its closing quote, and what follows. -/
def readLiteral : List Char → Option (List Char × List Char)
  | [] => none
  | '"' :: rest => some ([], rest)
  | '\\' :: '"' :: rest => (readLiteral rest).map fun (text, rest) => ('"' :: text, rest)
  | '\\' :: '\\' :: rest => (readLiteral rest).map fun (text, rest) => ('\\' :: text, rest)
  | '\\' :: 'n' :: rest => (readLiteral rest).map fun (text, rest) => ('\n' :: text, rest)
  | '\\' :: 'r' :: rest => (readLiteral rest).map fun (text, rest) => ('\r' :: text, rest)
  | '\\' :: 't' :: rest => (readLiteral rest).map fun (text, rest) => ('\t' :: text, rest)
  | '\\' :: 'b' :: rest => (readLiteral rest).map fun (text, rest) => (Char.ofNat 8 :: text, rest)
  | '\\' :: 'f' :: rest => (readLiteral rest).map fun (text, rest) => (Char.ofNat 12 :: text, rest)
  | '\\' :: 'u' :: '0' :: '0' :: high :: low :: rest =>
    (readLiteral rest).map fun (text, rest) =>
      (Char.ofNat (16 * digitValue high + digitValue low) :: text, rest)
  | '\\' :: _ => none
  | char :: rest =>
    if char.toNat < 32 then none
    else (readLiteral rest).map fun (text, rest) => (char :: text, rest)

/-- The digits a text begins with, and what follows. -/
def readNumber (text : List Char) : Option (Json × List Char) :=
  let digits := text.takeWhile Char.isDigit
  if digits.isEmpty then none
  else some (.number (Nat.ofDigitChars 10 digits 0), text.dropWhile Char.isDigit)

mutual
def readValue : Nat → List Char → Option (Json × List Char)
  | 0, _ => none
  | _ + 1, 'n' :: 'u' :: 'l' :: 'l' :: rest => some (.null, rest)
  | _ + 1, 't' :: 'r' :: 'u' :: 'e' :: rest => some (.bool true, rest)
  | _ + 1, 'f' :: 'a' :: 'l' :: 's' :: 'e' :: rest => some (.bool false, rest)
  | _ + 1, '"' :: rest => (readLiteral rest).map fun (text, rest) => (.string (String.ofList text), rest)
  | _ + 1, '[' :: ']' :: rest => some (.array [], rest)
  | fuel + 1, '[' :: rest => do
    let (item, rest) ← readValue fuel rest
    let (items, rest) ← readItems fuel rest
    some (.array (item :: items), rest)
  | _ + 1, '{' :: '}' :: rest => some (.object [], rest)
  | fuel + 1, '{' :: rest => do
    let (field, rest) ← readField fuel rest
    let (fields, rest) ← readFields fuel rest
    some (.object (field :: fields), rest)
  | _ + 1, text => readNumber text
def readItems : Nat → List Char → Option (List Json × List Char)
  | fuel + 1, ',' :: rest => do
    let (item, rest) ← readValue fuel rest
    let (items, rest) ← readItems fuel rest
    some (item :: items, rest)
  | _ + 1, ']' :: rest => some ([], rest)
  | _, _ => none
def readFields : Nat → List Char → Option (List (String × Json) × List Char)
  | fuel + 1, ',' :: rest => do
    let (field, rest) ← readField fuel rest
    let (fields, rest) ← readFields fuel rest
    some (field :: fields, rest)
  | _ + 1, '}' :: rest => some ([], rest)
  | _, _ => none
def readField : Nat → List Char → Option ((String × Json) × List Char)
  | fuel + 1, '"' :: rest => do
    let (key, rest) ← readLiteral rest
    match rest with
    | ':' :: rest => do
      let (value, rest) ← readValue fuel rest
      some ((String.ofList key, value), rest)
    | _ => none
  | _, _ => none
end

/-- A whole text as a document. -/
def read (text : List Char) : Option Json :=
  match readValue (text.length + 1) text with
  | some (value, []) => some value
  | _ => none

/-! ## Reading what was written -/

theorem digitValue_digitChar {digit : Nat} (h : digit < 16) : digitValue (Nat.digitChar digit) = digit := by
  interval_cases digit <;> decide

/-- A control character without an escape of its own. -/
theorem readLiteral_control (char : Char) (h : char.toNat < 32) (rest : List Char) :
    readLiteral ('\\' :: 'u' :: '0' :: '0' :: Nat.digitChar (char.toNat / 16) ::
        Nat.digitChar (char.toNat % 16) :: rest) =
      (readLiteral rest).map fun (text, rest) => (char :: text, rest) := by
  have hvalue : Char.ofNat (16 * digitValue (Nat.digitChar (char.toNat / 16)) +
      digitValue (Nat.digitChar (char.toNat % 16))) = char := by
    rw [digitValue_digitChar (by omega), digitValue_digitChar (by omega), Nat.div_add_mod]
    exact Char.ofNat_toNat char
  rw [readLiteral, hvalue]

theorem readLiteral_escape (char : Char) (rest : List Char) :
    readLiteral (escape char ++ rest) = (readLiteral rest).map fun (text, rest) => (char :: text, rest) := by
  have hcode : ∀ code, char.toNat = code → char = Char.ofNat code := by
    intro code h
    rw [← h, Char.ofNat_toNat]
  unfold escape
  split_ifs with hquote hslash hline hreturn htab hback hfeed hcontrol
  case pos => rw [hquote]; rfl
  case pos => rw [hslash]; rfl
  case pos => rw [hline]; rfl
  case pos => rw [hreturn]; rfl
  case pos => rw [htab]; rfl
  case pos => rw [hcode 8 hback]; rfl
  case pos => rw [hcode 12 hfeed]; rfl
  case pos => exact readLiteral_control char hcontrol rest
  case neg =>
    rw [List.singleton_append, readLiteral]
    · rw [if_neg hcontrol]
    all_goals simp_all

theorem readLiteral_literal (text rest : List Char) :
    readLiteral (literal text ++ rest) = some (text, rest) := by
  induction text with
  | nil => rfl
  | cons char text ih =>
    have hstep : literal (char :: text) ++ rest = escape char ++ (literal text ++ rest) := by
      simp [literal]
    rw [hstep, readLiteral_escape, ih]
    rfl

/-- What may follow a number. -/
def Ends (rest : List Char) : Prop := ∀ char ∈ rest.head?, char.isDigit = false

theorem ends_nil : Ends [] := nofun

theorem ends_cons {char : Char} (h : char.isDigit = false) (rest : List Char) : Ends (char :: rest) := by
  intro other hother
  rw [List.head?_cons, Option.mem_some_iff] at hother
  exact hother ▸ h

theorem readNumber_digits (value : Nat) {rest : List Char} (h : Ends rest) :
    readNumber (Nat.toDigits 10 value ++ rest) = some (.number value, rest) := by
  have hdigits : ∀ char ∈ Nat.toDigits 10 value, char.isDigit = true := fun char hchar =>
    Nat.isDigit_of_mem_toDigits (by omega) (by omega) hchar
  have htake : rest.takeWhile Char.isDigit = [] ∧ rest.dropWhile Char.isDigit = rest := by
    cases rest with
    | nil => exact ⟨rfl, rfl⟩
    | cons char rest => simp [h char rfl]
  have hnonempty : (Nat.toDigits 10 value).isEmpty = false := by
    simp
  rw [readNumber, List.takeWhile_append_of_pos hdigits, List.dropWhile_append_of_pos hdigits, htake.1, htake.2,
    List.append_nil, hnonempty, Nat.ofDigitChars_ten_toDigits]
  rfl

/-- A text that begins with a digit is read as a number. -/
theorem readValue_digit {char : Char} (h : char.isDigit = true) (fuel : Nat) (rest : List Char) :
    readValue (fuel + 1) (char :: rest) = readNumber (char :: rest) := by
  rw [readValue]
  all_goals
    intros
    rename_i heq
    rw [(List.cons.inj heq).1] at h
    revert h
    decide

theorem render_head (value : Json) : ∃ char rest, render value = char :: rest ∧ char ≠ ']' := by
  cases value with
  | null => exact ⟨_, _, rfl, by decide⟩
  | bool value => cases value <;> exact ⟨_, _, rfl, by decide⟩
  | number value =>
    cases hdigits : Nat.toDigits 10 value with
    | nil => exact absurd hdigits Nat.toDigits_ne_nil
    | cons char rest =>
      have hdigit : char.isDigit = true :=
        Nat.isDigit_of_mem_toDigits (b := 10) (n := value) (by omega) (by omega) (hdigits ▸ List.mem_cons_self)
      exact ⟨char, rest, hdigits, by rintro rfl; revert hdigit; decide⟩
  | string value => exact ⟨_, _, rfl, by decide⟩
  | array items => cases items <;> exact ⟨_, _, rfl, by decide⟩
  | object fields => cases fields <;> exact ⟨_, _, rfl, by decide⟩

theorem ends_renderItems (items : List Json) (rest : List Char) : Ends (renderItems items ++ rest) := by
  cases items <;> exact ends_cons (by decide) _

theorem ends_renderFields (fields : List (String × Json)) (rest : List Char) :
    Ends (renderFields fields ++ rest) := by
  cases fields <;> exact ends_cons (by decide) _

-- the induction is on the document; the fuel only has to reach as far as the text
mutual
theorem readValue_render : ∀ (value : Json) (fuel : Nat) (rest : List Char),
    (render value).length ≤ fuel → Ends rest → readValue fuel (render value ++ rest) = some (value, rest)
  | value, 0, rest, hfuel, _ => by
    obtain ⟨char, text, htext, -⟩ := render_head value
    rw [htext] at hfuel
    exact absurd hfuel (by simp)
  | .null, _ + 1, rest, _, _ => rfl
  | .bool true, _ + 1, rest, _, _ => rfl
  | .bool false, _ + 1, rest, _, _ => rfl
  | .number value, fuel + 1, rest, _, hends => by
    have hread := readNumber_digits value hends
    show readValue (fuel + 1) (Nat.toDigits 10 value ++ rest) = _
    cases hdigits : Nat.toDigits 10 value with
    | nil => exact absurd hdigits Nat.toDigits_ne_nil
    | cons char text =>
      have hdigit : char.isDigit = true :=
        Nat.isDigit_of_mem_toDigits (b := 10) (n := value) (by omega) (by omega) (hdigits ▸ List.mem_cons_self)
      rw [List.cons_append, readValue_digit hdigit, ← List.cons_append, ← hdigits, hread]
  | .string value, fuel + 1, rest, _, _ => by
    show (readLiteral (literal value.toList ++ rest)).map _ = _
    simp only [readLiteral_literal, Option.map_some, String.ofList_toList]
  | .array [], _ + 1, rest, _, _ => rfl
  | .array (item :: items), fuel + 1, rest, hfuel, _ => by
    have hlength : (render item).length + (renderItems items).length ≤ fuel := by
      simpa [render] using hfuel
    obtain ⟨char, text, htext, hne⟩ := render_head item
    have hitem := readValue_render item fuel (renderItems items ++ rest) (by omega) (ends_renderItems items rest)
    have hitems := readItems_renderItems items fuel rest (by omega)
    have hsplit : render (.array (item :: items)) ++ rest =
        '[' :: (render item ++ (renderItems items ++ rest)) := by
      simp [render]
    rw [hsplit]
    rw [htext, List.cons_append] at hitem ⊢
    rw [readValue]
    · simp only [hitem, hitems, Option.bind_eq_bind, Option.bind_some]
    · intro other heq
      exact hne (List.cons.inj heq).1
  | .object [], _ + 1, rest, _, _ => rfl
  | .object (field :: fields), fuel + 1, rest, hfuel, _ => by
    have hlength : (renderField field).length + (renderFields fields).length ≤ fuel := by
      simpa [render] using hfuel
    have hfield := readField_renderField field fuel (renderFields fields ++ rest) (by omega)
      (ends_renderFields fields rest)
    have hfields := readFields_renderFields fields fuel rest (by omega)
    have hsplit : render (.object (field :: fields)) ++ rest =
        '{' :: (renderField field ++ (renderFields fields ++ rest)) := by
      simp [render]
    obtain ⟨key, value⟩ := field
    rw [hsplit]
    rw [renderField, List.cons_append] at hfield ⊢
    rw [readValue]
    · simp only [hfield, hfields, Option.bind_eq_bind, Option.bind_some]
    · intro other heq
      exact absurd (List.cons.inj heq).1 (by decide)
theorem readItems_renderItems : ∀ (items : List Json) (fuel : Nat) (rest : List Char),
    (renderItems items).length ≤ fuel → readItems fuel (renderItems items ++ rest) = some (items, rest)
  | items, 0, rest, hfuel => by
    cases items <;> exact absurd hfuel (by simp [renderItems])
  | [], _ + 1, rest, _ => rfl
  | item :: items, fuel + 1, rest, hfuel => by
    have hlength : (render item).length + (renderItems items).length ≤ fuel := by
      simpa [renderItems] using hfuel
    have hitem := readValue_render item fuel (renderItems items ++ rest) (by omega) (ends_renderItems items rest)
    have hitems := readItems_renderItems items fuel rest (by omega)
    have hsplit : renderItems (item :: items) ++ rest =
        ',' :: (render item ++ (renderItems items ++ rest)) := by
      simp [renderItems]
    rw [hsplit, readItems]
    simp only [hitem, hitems, Option.bind_eq_bind, Option.bind_some]
theorem readFields_renderFields : ∀ (fields : List (String × Json)) (fuel : Nat) (rest : List Char),
    (renderFields fields).length ≤ fuel → readFields fuel (renderFields fields ++ rest) = some (fields, rest)
  | fields, 0, rest, hfuel => by
    cases fields <;> exact absurd hfuel (by simp [renderFields])
  | [], _ + 1, rest, _ => rfl
  | field :: fields, fuel + 1, rest, hfuel => by
    have hlength : (renderField field).length + (renderFields fields).length ≤ fuel := by
      simpa [renderFields] using hfuel
    have hfield := readField_renderField field fuel (renderFields fields ++ rest) (by omega)
      (ends_renderFields fields rest)
    have hfields := readFields_renderFields fields fuel rest (by omega)
    have hsplit : renderFields (field :: fields) ++ rest =
        ',' :: (renderField field ++ (renderFields fields ++ rest)) := by
      simp [renderFields]
    rw [hsplit, readFields]
    simp only [hfield, hfields, Option.bind_eq_bind, Option.bind_some]
theorem readField_renderField : ∀ (field : String × Json) (fuel : Nat) (rest : List Char),
    (renderField field).length ≤ fuel → Ends rest →
      readField fuel (renderField field ++ rest) = some (field, rest)
  | (key, value), 0, rest, hfuel, _ => absurd hfuel (by simp [renderField])
  | (key, value), fuel + 1, rest, hfuel, hends => by
    have hlength : (render value).length ≤ fuel := by
      simp only [renderField, List.length_cons, List.length_append] at hfuel
      omega
    have hvalue := readValue_render value fuel rest hlength hends
    have hsplit : renderField (key, value) ++ rest =
        '"' :: (literal key.toList ++ (':' :: (render value ++ rest))) := by
      simp [renderField]
    rw [hsplit, readField]
    simp only [readLiteral_literal, hvalue, Option.bind_eq_bind, Option.bind_some, String.ofList_toList]
end

/-- A document is read back from its text. -/
theorem read_render (value : Json) : read (render value) = some value := by
  have hread := readValue_render value ((render value).length + 1) [] (by omega) ends_nil
  rw [List.append_nil] at hread
  rw [read, hread]

/-! ## How long a text is -/

/-- The bytes of a text in UTF-8. -/
def bytes (text : List Char) : Nat := (text.map Char.utf8Size).sum

@[simp] theorem bytes_nil : bytes [] = 0 := rfl

@[simp] theorem bytes_cons (char : Char) (text : List Char) :
    bytes (char :: text) = char.utf8Size + bytes text := rfl

@[simp] theorem bytes_append (text rest : List Char) : bytes (text ++ rest) = bytes text + bytes rest := by
  simp [bytes]

theorem utf8Size_digitChar {digit : Nat} (h : digit < 16) : (Nat.digitChar digit).utf8Size = 1 := by
  interval_cases digit <;> decide

/-- An escape takes at most six bytes for one. -/
theorem bytes_escape_le (char : Char) : bytes (escape char) ≤ 6 * char.utf8Size := by
  have hpos : 0 < char.utf8Size := char.utf8Size_pos
  have hlow : ∀ low : Char, low.utf8Size = 1 → bytes ['\\', low] = 2 := by
    intro low h
    rw [bytes_cons, bytes_cons, h]
    decide
  unfold escape
  split_ifs with hquote hslash hline hreturn htab hback hfeed hcontrol
  case pos => rw [hlow _ (by decide)]; omega
  case pos => rw [hlow _ (by decide)]; omega
  case pos => rw [hlow _ (by decide)]; omega
  case pos => rw [hlow _ (by decide)]; omega
  case pos => rw [hlow _ (by decide)]; omega
  case pos => rw [hlow _ (by decide)]; omega
  case pos => rw [hlow _ (by decide)]; omega
  case pos =>
    have hhigh : (Nat.digitChar (char.toNat / 16)).utf8Size = 1 := utf8Size_digitChar (by omega)
    have hunit : (Nat.digitChar (char.toNat % 16)).utf8Size = 1 := utf8Size_digitChar (by omega)
    have hstart : bytes ['\\', 'u', '0', '0'] = 4 := by decide
    calc bytes ['\\', 'u', '0', '0', Nat.digitChar (char.toNat / 16), Nat.digitChar (char.toNat % 16)]
        = bytes ['\\', 'u', '0', '0'] +
            ((Nat.digitChar (char.toNat / 16)).utf8Size + (Nat.digitChar (char.toNat % 16)).utf8Size) := by
          simp only [bytes_cons, bytes_nil]
          omega
      _ = 6 := by rw [hhigh, hunit, hstart]
      _ ≤ 6 * char.utf8Size := by omega
  case neg =>
    rw [bytes_cons, bytes_nil]
    omega

theorem bytes_literal_le (text : List Char) : bytes (literal text) ≤ 6 * bytes text + 1 := by
  induction text with
  | nil => decide
  | cons char text ih =>
    have hchar := bytes_escape_le char
    have hstep : literal (char :: text) = escape char ++ literal text := by simp [literal]
    calc bytes (literal (char :: text)) = bytes (escape char) + bytes (literal text) := by
          rw [hstep, bytes_append]
      _ ≤ 6 * char.utf8Size + (6 * bytes text + 1) := Nat.add_le_add hchar ih
      _ = 6 * bytes (char :: text) + 1 := by rw [bytes_cons]; omega

theorem bytes_string_le (text : String) : bytes (render (.string text)) ≤ 6 * bytes text.toList + 2 := by
  have hliteral := bytes_literal_le text.toList
  show bytes ('"' :: literal text.toList) ≤ _
  rw [bytes_cons, show '"'.utf8Size = 1 from rfl]
  omega

/-- What a field takes at most, its comma included. -/
def fieldBound (field : String × Json) : Nat := 4 + 6 * bytes field.1.toList + bytes (render field.2)

theorem bytes_renderField_le (field : String × Json) : bytes (renderField field) + 1 ≤ fieldBound field := by
  obtain ⟨key, value⟩ := field
  have hkey := bytes_literal_le key.toList
  simp only [renderField, bytes_cons, bytes_append, fieldBound, show '"'.utf8Size = 1 from rfl,
    show ':'.utf8Size = 1 from rfl]
  omega

theorem bytes_renderFields_le (fields : List (String × Json)) :
    bytes (renderFields fields) ≤ (fields.map fieldBound).sum + 1 := by
  induction fields with
  | nil => exact Nat.le_refl 1
  | cons field fields ih =>
    have hfield := bytes_renderField_le field
    simp only [renderFields, bytes_cons, bytes_append, List.map_cons, List.sum_cons, show ','.utf8Size = 1 from rfl]
    omega

theorem bytes_object_le (fields : List (String × Json)) :
    bytes (render (.object fields)) ≤ (fields.map fieldBound).sum + 2 := by
  cases fields with
  | nil => exact Nat.le_refl 2
  | cons field fields =>
    have hfield := bytes_renderField_le field
    have hfields := bytes_renderFields_le fields
    simp only [render, bytes_cons, bytes_append, List.map_cons, List.sum_cons, show '{'.utf8Size = 1 from rfl]
    omega

theorem bytes_renderItems_le {items : List Json} {bound : Nat} (h : ∀ item ∈ items, bytes (render item) < bound) :
    bytes (renderItems items) ≤ items.length * bound + 1 := by
  induction items with
  | nil =>
    rw [List.length_nil, Nat.zero_mul]
    exact Nat.le_refl 1
  | cons item items ih =>
    have hitem := h item List.mem_cons_self
    have hitems := ih fun other hother => h other (List.mem_cons_of_mem _ hother)
    simp only [renderItems, bytes_cons, bytes_append, List.length_cons, Nat.succ_mul,
      show ','.utf8Size = 1 from rfl]
    omega

theorem bytes_array_le {items : List Json} {bound : Nat} (h : ∀ item ∈ items, bytes (render item) < bound) :
    bytes (render (.array items)) ≤ items.length * bound + 2 := by
  cases items with
  | nil =>
    rw [List.length_nil, Nat.zero_mul]
    exact Nat.le_refl 2
  | cons item items =>
    have hitem := h item List.mem_cons_self
    have hitems := bytes_renderItems_le fun other hother => h other (List.mem_cons_of_mem item hother)
    simp only [render, bytes_cons, bytes_append, List.length_cons, Nat.succ_mul, show '['.utf8Size = 1 from rfl]
    omega

end Json

end NianPass
