import There.Json.Value

/-!
# Reading JSON

A reader takes what it reads from the front of a text and returns it with the rest. Blanks
are allowed between the tokens. The reader of values recurses on how much deeper arrays and
objects may still be nested; its loops are bounded by the length of the text, which no loop
exceeds.

Whatever is written is read back, whole and with the same rest of the text.
-/

namespace Json

abbrev Reader (α : Type) := List Char → Option (α × List Char)

def isBlank (c : Char) : Bool := [' ', '\n', '\r', '\t'].contains c

def skipBlanks (cs : List Char) : List Char := cs.dropWhile isBlank

def hexValue (c : Char) : Option Nat :=
  if '0' ≤ c ∧ c ≤ '9' then some (c.toNat - '0'.toNat)
  else if 'a' ≤ c ∧ c ≤ 'f' then some (c.toNat - 'a'.toNat + 10)
  else if 'A' ≤ c ∧ c ≤ 'F' then some (c.toNat - 'A'.toNat + 10)
  else none

def readHex : Reader Nat
  | a :: b :: c :: d :: rest => do
      let a ← hexValue a
      let b ← hexValue b
      let c ← hexValue c
      let d ← hexValue d
      some (((a * 16 + b) * 16 + c) * 16 + d, rest)
  | _ => none

/-- An escape by number. A character beyond the basic plane takes two of them. -/
def readUnicode (cs : List Char) : Option (Char × List Char) := do
  let (n, rest) ← readHex cs
  if n < 0xD800 ∨ 0xDFFF < n then
    some (Char.ofNat n, rest)
  else if n < 0xDC00 ∧ rest.take 2 = ['\\', 'u'] then do
    let (m, rest) ← readHex (rest.drop 2)
    if 0xDC00 ≤ m ∧ m ≤ 0xDFFF then
      some (Char.ofNat (0x10000 + (n - 0xD800) * 0x400 + (m - 0xDC00)), rest)
    else
      none
  else
    none

/-- What follows a backslash. -/
def readEscape : Reader Char
  | [] => none
  | c :: rest =>
      if c = '"' ∨ c = '\\' ∨ c = '/' then some (c, rest)
      else if c = 'b' then some ('\x08', rest)
      else if c = 'f' then some ('\x0c', rest)
      else if c = 'n' then some ('\n', rest)
      else if c = 'r' then some ('\r', rest)
      else if c = 't' then some ('\t', rest)
      else if c = 'u' then readUnicode rest
      else none

def readChar : Reader Char
  | [] => none
  | c :: rest =>
      if c = '\\' then readEscape rest
      else if c = '"' ∨ c.toNat < 32 then none
      else some (c, rest)

/-- The characters of a string up to the closing quote, at most `n - 1` of them. -/
def readChars : Nat → Reader (List Char)
  | 0, _ => none
  | n + 1, cs =>
      if cs.head? = some '"' then
        some ([], cs.tail)
      else do
        let (c, rest) ← readChar cs
        let (cs, rest) ← readChars n rest
        some (c :: cs, rest)

/-- Items between commas up to the closing character, at least one and at most `n`. -/
def readSome {α : Type} (item : Reader α) (close : Char) : Nat → Reader (List α)
  | 0, _ => none
  | n + 1, cs => do
      let (x, rest) ← item cs
      let rest := skipBlanks rest
      if rest.head? = some ',' then do
        let (xs, rest) ← readSome item close n rest.tail
        some (x :: xs, rest)
      else if rest.head? = some close then
        some ([x], rest.tail)
      else
        none

def readSequence {α : Type} (item : Reader α) (close : Char) (cs : List Char) :
    Option (List α × List Char) :=
  let cs := skipBlanks cs
  if cs.head? = some close then some ([], cs.tail) else readSome item close cs.length cs

def readMember (value : Reader Value) (cs : List Char) :
    Option ((String × Value) × List Char) := do
  let cs := skipBlanks cs
  if cs.head? = some '"' then do
    let (name, rest) ← readChars cs.length cs.tail
    let rest := skipBlanks rest
    if rest.head? = some ':' then do
      let (v, rest) ← value rest.tail
      some ((String.ofList name, v), rest)
    else
      none
  else
    none

def readKeyword (word : List Char) (v : Value) (cs : List Char) : Option (Value × List Char) :=
  if cs.take word.length = word then some (v, cs.drop word.length) else none

def readNumber (cs : List Char) : Option (Value × List Char) :=
  if h : isNumber (cs.takeWhile isNumberChar) then
    some (.number ⟨_, h⟩, cs.dropWhile isNumberChar)
  else
    none

/-- A value whose elements or members are read by `nested`. -/
def readWith (nested : Option (Reader Value)) (cs : List Char) : Option (Value × List Char) :=
  match skipBlanks cs with
  | [] => none
  | c :: rest =>
      if c = '"' then do
        let (s, rest) ← readChars (rest.length + 1) rest
        some (.string (String.ofList s), rest)
      else if c = '[' then do
        let value ← nested
        let (vs, rest) ← readSequence value ']' rest
        some (.array vs, rest)
      else if c = '{' then do
        let value ← nested
        let (ms, rest) ← readSequence (readMember value) '}' rest
        some (.object ms, rest)
      else if c = 'n' then readKeyword ['u', 'l', 'l'] .null rest
      else if c = 't' then readKeyword ['r', 'u', 'e'] (.bool true) rest
      else if c = 'f' then readKeyword ['a', 'l', 's', 'e'] (.bool false) rest
      else readNumber (c :: rest)

/-- A value that is nested at most `depth` deep. -/
def read : (depth : Nat) → Reader Value
  | 0 => readWith none
  | depth + 1 => readWith (some (read depth))

/-- A text that is one value. -/
def parse (limit : Nat) (text : String) : Option Value := do
  let (v, rest) ← read limit text.toList
  if skipBlanks rest = [] then some v else none

/-- The text of a value does not run on into what follows it. -/
def Stops (rest : List Char) : Prop := ∀ c ∈ rest.head?, isNumberChar c = false

theorem stops_cons {c : Char} {rest : List Char} (h : isNumberChar c = false) :
    Stops (c :: rest) := by
  rintro _ ⟨⟩
  exact h

theorem skipBlanks_cons {c : Char} (h : isBlank c = false) (rest : List Char) :
    skipBlanks (c :: rest) = c :: rest :=
  List.dropWhile_cons_of_neg (by simp [h])

section Strings

variable {c : Char} {cs rest : List Char}

theorem hexValue_hexDigit : ∀ n < 16, hexValue (hexDigit n) = some n := by decide

theorem escaped_head (c : Char) : (escaped c).head?.any (· ≠ '"') := by
  rw [escaped]
  split_ifs with quote <;> simp [quote]

theorem readHex_hexDigit {n : Nat} (small : n < 256) :
    readHex ('0' :: '0' :: hexDigit (n / 16) :: hexDigit (n % 16) :: rest) = some (n, rest) := by
  have zero : hexValue '0' = some 0 := by decide
  have high := hexValue_hexDigit (n / 16) (by omega)
  have low := hexValue_hexDigit (n % 16) (by omega)
  have same : ((0 * 16 + 0) * 16 + n / 16) * 16 + n % 16 = n := by omega
  simp only [readHex, zero, high, low, Option.bind_eq_bind, Option.bind_some, same]

/-- A control character is escaped by its number. -/
theorem readUnicode_hexDigit {n : Nat} (small : n < 32) :
    readUnicode ('0' :: '0' :: hexDigit (n / 16) :: hexDigit (n % 16) :: rest) =
      some (Char.ofNat n, rest) := by
  rw [readUnicode, readHex_hexDigit (by omega)]
  exact if_pos (.inl (by omega))

theorem readChar_escaped (c : Char) : readChar (escaped c ++ rest) = some (c, rest) := by
  rw [escaped]
  split_ifs with quote backslash backspace tab newline formFeed enter control
  iterate 7
    · subst c
      rfl
  · exact (readUnicode_hexDigit control).trans (by rw [Char.ofNat_toNat]; rfl)
  · simp [readChar, quote, backslash, control]

theorem readChars_escaped {n : Nat} (long : cs.length < n) :
    readChars n (cs.flatMap escaped ++ '"' :: rest) = some (cs, rest) := by
  induction cs generalizing n with
  | nil =>
      obtain ⟨n, rfl⟩ := Nat.exists_eq_add_one_of_ne_zero (Nat.ne_zero_of_lt long)
      rfl
  | cons c cs ih =>
      obtain ⟨n, rfl⟩ := Nat.exists_eq_add_one_of_ne_zero (Nat.ne_zero_of_lt long)
      have text : (c :: cs).flatMap escaped ++ '"' :: rest =
          escaped c ++ (cs.flatMap escaped ++ '"' :: rest) := by
        rw [List.flatMap_cons, List.append_assoc]
      have goesOn : (escaped c ++ (cs.flatMap escaped ++ '"' :: rest)).head? ≠ some '"' := by
        have head := escaped_head c
        revert head
        cases escaped c <;> simp
      rw [text, readChars, if_neg goesOn, readChar_escaped]
      simp only [Option.bind_eq_bind, Option.bind_some]
      rw [ih (Nat.lt_of_succ_lt_succ long)]
      rfl

theorem length_le_flatMap_escaped (cs : List Char) : cs.length ≤ (cs.flatMap escaped).length := by
  induction cs with
  | nil => exact Nat.le_refl 0
  | cons c cs ih =>
      have head := escaped_head c
      have one : 1 ≤ (escaped c).length := by
        revert head
        cases escaped c <;> simp
      rw [List.flatMap_cons, List.length_append, List.length_cons]
      omega

/-- A string is read back when its opening quote has been read. -/
theorem readChars_quoted (s : String) {n : Nat} (long : (quoted s).length ≤ n + 1) :
    readChars n ((quoted s).tail ++ rest) = some (s.toList, rest) := by
  have text : (quoted s).tail ++ rest = s.toList.flatMap escaped ++ '"' :: rest := by
    simp [quoted]
  rw [text]
  apply readChars_escaped
  have := length_le_flatMap_escaped s.toList
  simp only [quoted, List.length_cons, List.length_append, List.length_nil] at long
  omega

end Strings

section Sequences

variable {α : Type} {item : Reader α} {text : α → List Char} {close : Char} {rest : List Char}

theorem intercalate_comma (x y : List Char) (ys : List (List Char)) :
    [','].intercalate (x :: y :: ys) = x ++ ',' :: [','].intercalate (y :: ys) := by
  rw [List.intercalate_cons_of_ne_nil (List.cons_ne_nil y ys), List.append_assoc]
  rfl

theorem readSome_intercalate {xs : List α} {n : Nat} (ne : xs ≠ []) (enough : xs.length ≤ n)
    (reads : ∀ x ∈ xs, ∀ rest, Stops rest → item (text x ++ rest) = some (x, rest))
    (stops : isNumberChar close = false) (visible : isBlank close = false) (other : close ≠ ',') :
    readSome item close n ([','].intercalate (xs.map text) ++ close :: rest) =
      some (xs, rest) := by
  induction xs generalizing n with
  | nil => exact absurd rfl ne
  | cons x xs ih =>
      obtain ⟨n, rfl⟩ := Nat.exists_eq_add_one_of_ne_zero
        (Nat.ne_zero_of_lt (Nat.lt_of_lt_of_le (Nat.succ_pos _) enough))
      obtain ⟨first, others⟩ := List.forall_mem_cons.mp reads
      cases xs with
      | nil =>
          have last : some close ≠ some ',' := by simpa using other
          simp [readSome, first _ (stops_cons stops), skipBlanks_cons visible, last]
      | cons y ys =>
          have comma : isBlank ',' = false := by decide
          rw [List.map_cons, List.map_cons, intercalate_comma, ← List.map_cons, List.append_assoc,
            List.cons_append, readSome, first _ (stops_cons (by decide))]
          simp only [Option.bind_eq_bind, Option.bind_some, skipBlanks_cons comma, List.head?_cons,
            List.tail_cons, if_pos]
          rw [ih (by simp) (Nat.le_of_succ_le_succ enough) others]
          rfl

/-- There is a comma between any two items. -/
theorem length_le_intercalate (xs : List (List Char)) :
    xs.length ≤ ([','].intercalate xs).length + 1 := by
  induction xs with
  | nil => exact Nat.zero_le _
  | cons x xs ih =>
      cases xs with
      | nil => simp
      | cons y ys =>
          rw [intercalate_comma, List.length_append]
          simp only [List.length_cons] at ih ⊢
          omega

/-- A sequence of items is read back, the empty one as well. -/
theorem readSequence_intercalate {xs : List α}
    (reads : ∀ x ∈ xs, ∀ rest, Stops rest → item (text x ++ rest) = some (x, rest))
    (begins : ∀ x ∈ xs, (text x).head?.any fun c => !isBlank c && c != close)
    (stops : isNumberChar close = false) (visible : isBlank close = false) (other : close ≠ ',') :
    readSequence item close ([','].intercalate (xs.map text) ++ close :: rest) =
      some (xs, rest) := by
  cases xs with
  | nil => simp [readSequence, skipBlanks_cons visible]
  | cons x xs =>
      obtain ⟨c, tail, head, begins⟩ : ∃ c tail, text x = c :: tail ∧
          isBlank c = false ∧ c ≠ close := by
        have begins := begins x List.mem_cons_self
        cases head : text x with
        | nil => simp [head] at begins
        | cons c tail => exact ⟨c, tail, rfl, by simpa [head] using begins⟩
      obtain ⟨more, front⟩ : ∃ more, [','].intercalate ((x :: xs).map text) = c :: more := by
        rw [List.map_cons, head]
        cases xs with
        | nil => exact ⟨tail, List.intercalate_singleton ..⟩
        | cons y ys => exact ⟨_, intercalate_comma ..⟩
      have enough : (x :: xs).length ≤ (c :: more ++ close :: rest).length := by
        have := length_le_intercalate ((x :: xs).map text)
        rw [front, List.length_map] at this
        simp only [List.length_append, List.length_cons] at this ⊢
        omega
      have whole : readSome item close _ ([','].intercalate ((x :: xs).map text) ++ close :: rest) =
          some (x :: xs, rest) :=
        readSome_intercalate (List.cons_ne_nil x xs) enough reads stops visible other
      rw [front] at whole ⊢
      rw [readSequence, List.cons_append, skipBlanks_cons begins.1,
        if_neg (by simpa using begins.2)]
      exact whole

end Sequences

theorem visible_of_isNumberChar {c : Char} (h : isNumberChar c) :
    isBlank c = false ∧ c ≠ ']' := by
  constructor
  · rw [← Bool.not_eq_true, isBlank, List.contains_iff_mem]
    intro blank
    simp only [List.mem_cons, List.not_mem_nil, or_false] at blank
    rcases blank with rfl | rfl | rfl | rfl <;> revert h <;> decide
  · rintro rfl
    revert h
    decide

namespace Value

def printMember (m : String × Value) : List Char := quoted m.1 ++ ':' :: m.2.print

theorem printElements_eq (vs : List Value) :
    printElements vs = [','].intercalate (vs.map print) := by
  induction vs with
  | nil => rfl
  | cons v vs ih =>
      cases vs with
      | nil => simp [printElements]
      | cons w vs =>
          rw [printElements, ih]
          exact (intercalate_comma ..).symm

theorem printMembers_eq (ms : List (String × Value)) :
    printMembers ms = [','].intercalate (ms.map printMember) := by
  induction ms with
  | nil => rfl
  | cons m ms ih =>
      obtain ⟨name, v⟩ := m
      cases ms with
      | nil => simp [printMembers, printMember]
      | cons m ms =>
          rw [printMembers, ih]
          simp only [List.map_cons, intercalate_comma, printMember, List.append_assoc,
            List.cons_append]

theorem depth_le_elements {v : Value} {vs : List Value} (member : v ∈ vs) :
    v.depth ≤ depthElements vs := by
  induction vs with
  | nil => cases member
  | cons w vs ih =>
      rw [depthElements]
      rcases List.mem_cons.mp member with rfl | member
      · exact Nat.le_max_left ..
      · exact Nat.le_trans (ih member) (Nat.le_max_right ..)

theorem depth_le_members {m : String × Value} {ms : List (String × Value)} (member : m ∈ ms) :
    m.2.depth ≤ depthMembers ms := by
  induction ms with
  | nil => cases member
  | cons m' ms ih =>
      obtain ⟨name, v⟩ := m'
      rw [depthMembers]
      rcases List.mem_cons.mp member with rfl | member
      · exact Nat.le_max_left ..
      · exact Nat.le_trans (ih member) (Nat.le_max_right ..)

/-- A value begins neither with a blank nor with the end of an array. -/
theorem print_begins (v : Value) : v.print.head?.any fun c => !isBlank c && c != ']' := by
  cases v with
  | bool b => cases b <;> rfl
  | number n =>
      rw [print]
      cases token : n.token with
      | nil => exact absurd token n.token_ne_nil
      | cons c token' =>
          have char := n.isNumberChar (c := c) (by simp [token])
          simpa using visible_of_isNumberChar char
  | _ => rfl

end Value

section Values

variable {v : Value} {rest : List Char}

theorem readNumber_token (n : Number) (stops : Stops rest) :
    readNumber (n.token ++ rest) = some (.number n, rest) := by
  have within : ∀ c ∈ n.token, isNumberChar c := fun c => n.isNumberChar
  have beyond : rest.takeWhile isNumberChar = [] ∧ rest.dropWhile isNumberChar = rest := by
    cases rest with
    | nil => exact ⟨rfl, rfl⟩
    | cons c rest =>
        have other : isNumberChar c = false := stops c rfl
        exact ⟨List.takeWhile_cons_of_neg (by simp [other]),
          List.dropWhile_cons_of_neg (by simp [other])⟩
  have token : (n.token ++ rest).takeWhile isNumberChar = n.token := by
    rw [List.takeWhile_append_of_pos within, beyond.1, List.append_nil]
  have left : (n.token ++ rest).dropWhile isNumberChar = rest := by
    rw [List.dropWhile_append_of_pos within, beyond.2]
  simp only [readNumber, token, n.isNumber, dif_pos, left]

theorem readMember_printMember {value : Reader Value} (m : String × Value)
    (reads : ∀ rest, Stops rest → value (m.2.print ++ rest) = some (m.2, rest))
    (stops : Stops rest) : readMember value (Value.printMember m ++ rest) = some (m, rest) := by
  have visible : skipBlanks (Value.printMember m ++ rest) = Value.printMember m ++ rest :=
    skipBlanks_cons (by decide) _
  have quote : (Value.printMember m ++ rest).head? = some '"' := rfl
  have text : (Value.printMember m ++ rest).tail =
      (quoted m.1).tail ++ ':' :: (m.2.print ++ rest) := by
    simp [Value.printMember, quoted]
  have colon : isBlank ':' = false := by decide
  have name : readChars (Value.printMember m ++ rest).length
      ((quoted m.1).tail ++ ':' :: (m.2.print ++ rest)) =
        some (m.1.toList, ':' :: (m.2.print ++ rest)) := by
    apply readChars_quoted
    simp only [Value.printMember, List.length_append]
    omega
  rw [readMember, visible]
  simp only [quote, text, name, if_pos, Option.bind_eq_bind, Option.bind_some,
    skipBlanks_cons colon, List.head?_cons, List.tail_cons, reads rest stops, String.ofList_toList]

section Nested

variable {nested : Option (Reader Value)} {value : Reader Value}

theorem readWith_number (n : Number) (stops : Stops rest) :
    readWith nested ((Value.number n).print ++ rest) = some (.number n, rest) := by
  cases token : n.token with
  | nil => exact absurd token n.token_ne_nil
  | cons c token' =>
      have char := n.isNumberChar (c := c) (by simp [token])
      have front : skipBlanks (n.token ++ rest) = c :: (token' ++ rest) := by
        rw [token]
        exact skipBlanks_cons (visible_of_isNumberChar char).1 _
      have other : c ∉ ['"', '[', '{', 'n', 't', 'f'] := by
        intro member
        simp only [List.mem_cons, List.not_mem_nil, or_false] at member
        rcases member with rfl | rfl | rfl | rfl | rfl | rfl <;> revert char <;> decide
      have reads := readNumber_token n stops
      rw [token] at reads
      simp only [List.mem_cons, List.not_mem_nil, or_false, not_or] at other
      simpa [readWith, Value.print, front, other] using reads

theorem readWith_string (s : String) (rest : List Char) :
    readWith nested ((Value.string s).print ++ rest) = some (.string s, rest) := by
  have front : skipBlanks (quoted s ++ rest) = '"' :: ((quoted s).tail ++ rest) :=
    skipBlanks_cons (by decide) _
  have string : readChars (((quoted s).tail ++ rest).length + 1) ((quoted s).tail ++ rest) =
      some (s.toList, rest) := by
    apply readChars_quoted
    simp only [List.length_append, List.length_tail]
    omega
  simp only [readWith, Value.print, front, if_pos, string, Option.bind_eq_bind,
    Option.bind_some, String.ofList_toList]

theorem readWith_array {vs : List Value}
    (reads : ∀ w ∈ vs, ∀ rest, Stops rest → value (w.print ++ rest) = some (w, rest)) :
    readWith (some value) ((Value.array vs).print ++ rest) = some (.array vs, rest) := by
  have front : skipBlanks ((Value.array vs).print ++ rest) =
      '[' :: ([','].intercalate (vs.map Value.print) ++ ']' :: rest) := by
    rw [Value.print, Value.printElements_eq, List.cons_append, List.append_assoc]
    exact skipBlanks_cons (by decide) _
  have elements : readSequence value ']'
      ([','].intercalate (vs.map Value.print) ++ ']' :: rest) = some (vs, rest) :=
    readSequence_intercalate reads (fun w _ => w.print_begins) (by decide) (by decide) (by decide)
  simp [readWith, front, elements]

theorem readWith_object {ms : List (String × Value)}
    (reads : ∀ m ∈ ms, ∀ rest, Stops rest → value (m.2.print ++ rest) = some (m.2, rest)) :
    readWith (some value) ((Value.object ms).print ++ rest) = some (.object ms, rest) := by
  have front : skipBlanks ((Value.object ms).print ++ rest) =
      '{' :: ([','].intercalate (ms.map Value.printMember) ++ '}' :: rest) := by
    rw [Value.print, Value.printMembers_eq, List.cons_append, List.append_assoc]
    exact skipBlanks_cons (by decide) _
  have members : readSequence (readMember value) '}'
      ([','].intercalate (ms.map Value.printMember) ++ '}' :: rest) = some (ms, rest) :=
    readSequence_intercalate
      (fun m member _ stops => readMember_printMember m (reads m member) stops)
      (fun m _ => rfl) (by decide) (by decide) (by decide)
  simp [readWith, front, members]

end Nested

/-- What is written is read back if what is inside it is. -/
theorem readWith_print {nested : Option (Reader Value)}
    (opens : 0 < v.depth → ∃ value, nested = some value ∧
      ∀ w, w.depth < v.depth → ∀ rest, Stops rest → value (w.print ++ rest) = some (w, rest))
    (stops : Stops rest) : readWith nested (v.print ++ rest) = some (v, rest) := by
  cases v with
  | null => rfl
  | bool b => cases b <;> rfl
  | number n => exact readWith_number n stops
  | string s => exact readWith_string s rest
  | array vs =>
      obtain ⟨value, rfl, reads⟩ := opens (Nat.succ_pos _)
      exact readWith_array fun w member =>
        reads w (Nat.lt_succ_of_le (Value.depth_le_elements member))
  | object ms =>
      obtain ⟨value, rfl, reads⟩ := opens (Nat.succ_pos _)
      exact readWith_object fun m member =>
        reads m.2 (Nat.lt_succ_of_le (Value.depth_le_members member))

/-- What is written is read back. -/
theorem read_print {depth : Nat} (shallow : v.depth ≤ depth) (stops : Stops rest) :
    read depth (v.print ++ rest) = some (v, rest) := by
  induction depth generalizing v rest with
  | zero => exact readWith_print (fun deep => absurd shallow (Nat.not_le_of_lt deep)) stops
  | succ depth ih =>
      refine readWith_print (fun _ => ⟨_, rfl, fun w deeper rest stops => ih ?_ stops⟩) stops
      exact Nat.le_of_lt_succ (Nat.lt_of_lt_of_le deeper shallow)

/-- A text that is what has been written is read as that value. -/
theorem parse_ofList_print {limit : Nat} (shallow : v.depth ≤ limit) :
    parse limit (String.ofList v.print) = some v := by
  have whole : read limit (v.print ++ []) = some (v, []) :=
    read_print shallow fun c member => absurd member (by simp)
  rw [List.append_nil] at whole
  rw [parse, String.toList_ofList, whole, Option.bind_eq_bind, Option.bind_some]
  exact if_pos rfl

/-- A value as it is written and as it is read by some implementation, which may limit how
deep the values that it reads are nested. -/
structure Format (limit : Nat) where
  print : Value → String
  parse : String → Option Value
  parse_print : ∀ v, v.depth ≤ limit → parse (print v) = some v

/-- Without blanks. -/
def compact (limit : Nat) : Format limit where
  print v := String.ofList v.print
  parse := parse limit
  parse_print _ := parse_ofList_print

end Values

end Json
