import There.Shell.Lexer

/-!
# Lines that a shell must read as one simple command

`split` is word splitting with quote removal and nothing else: operators and
expansions are ordinary characters to it. `simpleCommand` is the reading of a
POSIX shell, restricted to the lines whose reading the standard fixes without
looking at the environment: one command, no operator, no expansion of any kind,
no reserved word or assignment in front. It returns the words after quote
removal, and nothing for every other line.

Two ways of building a line are characterised exactly: joining words with blanks,
and putting one argument in double quotes behind words that need none.
-/

namespace Shell

/-- Quoting and blanks only. A newline is a blank, and a backslash at the end of
the line stands for itself. -/
def Dialect.split : Dialect where
  blank c := c == ' ' || c == '\t' || c == '\n'
  active _ := false
  expansions := false
  lastBackslash := true

/-- The shell. Outside quotes it acts on operator characters, newline included, on
`$` and the backquote, and on the pattern characters `*` and `?`. -/
def Dialect.sh : Dialect where
  blank c := c == ' ' || c == '\t'
  active c := ['\n', '|', '&', ';', '<', '>', '(', ')', '$', '`', '*', '?'].contains c
  expansions := true
  lastBackslash := false

/-- The words of a line, with quotes removed; nothing if a quote stays open. -/
def split (line : String) : Option (List String) :=
  (scan .split .between [] line.toList).map (·.map Token.text)

namespace Token

/-- A closing bracket stands before the next slash. -/
def closesBracket : Token → Bool
  | [] => false
  | m :: t => m.char != '/' && (m == ⟨']', false⟩ || closesBracket t)

/-- What follows an opening bracket completes a bracket expression: its first
member, which may be a closing bracket, and then the closing bracket. -/
def completesBracket : Token → Bool
  | [] => false
  | ⟨'!', false⟩ :: m :: t => m.char != '/' && closesBracket t
  | m :: t => m.char != '/' && closesBracket t

/-- An unquoted bracket expression makes a word a pattern. -/
def hasBracket : Token → Bool
  | [] => false
  | m :: t => (m == ⟨'[', false⟩ && completesBracket t) || hasBracket t

/-- No tilde prefix and no bracket expression: the word expands to itself. -/
def literal (t : Token) : Bool :=
  t.head? != some ⟨'~', false⟩ && !t.hasBracket

/-- An unquoted name followed by an unquoted equals sign. -/
def isAssignment (t : Token) : Bool :=
  let name := t.takeWhile fun m => !m.quoted && (m.char.isAlphanum || m.char == '_')
  name.head?.any (fun m => !m.char.isDigit) && t[name.length]? == some ⟨'=', false⟩

/-- The words that begin or structure a compound command when they are not quoted. -/
def reservedWords : List String :=
  ["!", "\x7b", "\x7d", "case", "do", "done", "elif", "else", "esac", "fi", "for", "if", "in",
    "then", "until", "while", "[[", "]]", "function", "select"]

/-- A first word that names the command to run. -/
def namesCommand (t : Token) : Bool :=
  !t.isAssignment && !(t.all (!·.quoted) && reservedWords.contains t.text)

theorem hasBracket_quoted (w : List Char) : (quoted w).hasBracket = false := by
  induction w with
  | nil => rfl
  | cons c w ih =>
      change ((⟨c, true⟩ : Mark) == ⟨'[', false⟩ && completesBracket (quoted w) ||
        hasBracket (quoted w)) = false
      rw [ih]
      simp

/-- A quoted word expands to itself. -/
theorem literal_quoted (w : List Char) : (quoted w).literal := by
  have head : (quoted w).head? ≠ some ⟨'~', false⟩ := by cases w <;> simp [quoted]
  simp [literal, hasBracket_quoted, head]

end Token

/-- The words form a simple command: a command name, and no word that expands. -/
def isSimple (ts : List Token) : Bool :=
  ts.head?.any Token.namesCommand && ts.all Token.literal

/-- The words of a line that a shell must read as one simple command. A line with
a null character cannot be handed to a shell at all. -/
def simpleCommand (line : String) : Option (List String) :=
  if '\x00' ∈ line.toList then none
  else
    match scan .sh .between [] line.toList with
    | some ts => if isSimple ts then some (ts.map Token.text) else none
    | none => none

theorem simpleCommand_eq_some {line : String} {ws : List String} :
    simpleCommand line = some ws ↔ '\x00' ∉ line.toList ∧
      ∃ ts, scan .sh .between [] line.toList = some ts ∧ isSimple ts ∧ ts.map Token.text = ws := by
  rw [simpleCommand]
  by_cases null : '\x00' ∈ line.toList
  · simp [null]
  · cases h : scan .sh .between [] line.toList with
    | none => simp [null]
    | some ts => by_cases simple : isSimple ts <;> simp [null, simple]

theorem size_eq_of_text {ts : List Token} {ws : List String} (h : ts.map Token.text = ws) :
    size ts = (ws.map (·.toList.length + 1)).sum := by
  subst h
  simp [size, Function.comp_def]

section Join

/-- Words that a shell reads back unchanged when they are joined with blanks. -/
structure PlainArgv (ws : List String) : Prop where
  plain : ∀ w ∈ ws, Dialect.sh.Plain w.toList
  no_null : ∀ w ∈ ws, '\x00' ∉ w.toList
  simple : isSimple (ws.map fun w => Token.bare w.toList)

variable {ws : List String}

theorem PlainArgv.ne_nil (h : PlainArgv ws) : ws ≠ [] := by
  rintro rfl
  exact absurd h.simple (by decide)

/-- What is plain to a shell is plain to `split`. -/
theorem plain_split {w : List Char} (h : Dialect.sh.Plain w) : Dialect.split.Plain w := by
  refine ⟨h.ne_nil, fun c hc => ?_, h.not_comment⟩
  obtain ⟨hb, ha, rest⟩ := h.ordinary c hc
  refine ⟨?_, rfl, rest⟩
  simp only [Dialect.sh, List.contains_eq_mem, List.mem_cons, not_or, Bool.or_eq_false_iff,
    beq_eq_false_iff_ne, decide_eq_false_iff_not] at ha hb
  simp [Dialect.split, hb, ha.1]

theorem toList_intercalate_space :
    (" ".intercalate ws).toList = [' '].intercalate (ws.map String.toList) := by
  rw [String.toList_intercalate]
  rfl

theorem length_intercalate_space (ne : ws ≠ []) :
    (" ".intercalate ws).toList.length + 1 = (ws.map (·.toList.length + 1)).sum := by
  rw [toList_intercalate_space]
  induction ws with
  | nil => exact absurd rfl ne
  | cons w ws ih =>
      cases ws with
      | nil => simp
      | cons v vs =>
          have rest := ih (List.cons_ne_nil v vs)
          rw [List.map_cons] at rest
          rw [List.map_cons, List.map_cons, List.intercalate_cons_cons, List.length_append,
            List.length_append, List.map_cons, List.sum_cons, ← rest, List.length_singleton]
          omega

theorem null_mem_intercalate :
    '\x00' ∈ (" ".intercalate ws).toList ↔ ∃ w ∈ ws, '\x00' ∈ w.toList := by
  rw [toList_intercalate_space]
  induction ws with
  | nil => simp
  | cons w ws ih =>
      cases ws with
      | nil => simp
      | cons v vs =>
          rw [List.map_cons, List.map_cons, List.intercalate_cons_cons, List.mem_append,
            List.mem_append, ← List.map_cons, ih]
          simp

/-- Joining with blanks is undone by `split` when no word needs quoting. -/
theorem split_intercalate (h : ∀ w ∈ ws, Dialect.sh.Plain w.toList) :
    split (" ".intercalate ws) = some ws := by
  rw [split, toList_intercalate_space, scan_intercalate rfl]
  · simp [Function.comp_def]
  · intro w hw
    obtain ⟨v, hv, rfl⟩ := List.mem_map.mp hw
    exact plain_split (h v hv)

/-- A shell reads joined words back unchanged exactly when none needs quoting. -/
theorem simpleCommand_intercalate :
    simpleCommand (" ".intercalate ws) = some ws ↔ PlainArgv ws := by
  rw [simpleCommand_eq_some]
  constructor
  · rintro ⟨null, ts, scanned, simple, texts⟩
    have ne : ws ≠ [] := by
      rintro rfl
      obtain rfl : ts = [] := by simpa using texts
      exact absurd simple (by decide)
    have tight : (" ".intercalate ws).toList.length + 1 ≤ size ts := by
      exact Nat.le_of_eq ((length_intercalate_space ne).trans (size_eq_of_text texts).symm)
    obtain ⟨us, rfl, plain⟩ := plain_of_tight rfl scanned tight
    obtain rfl : us.map String.ofList = ws := by simpa [Function.comp_def] using texts
    refine ⟨?_, ?_, ?_⟩
    · simpa using plain
    · rw [null_mem_intercalate] at null
      intro w hw hn
      exact null ⟨w, hw, hn⟩
    · simpa [Function.comp_def] using simple
  · intro h
    refine ⟨?_, ws.map fun w => Token.bare w.toList, ?_, h.simple, ?_⟩
    · rw [null_mem_intercalate]
      rintro ⟨w, hw, hn⟩
      exact h.no_null w hw hn
    · rw [toList_intercalate_space, scan_intercalate rfl]
      · simp [Function.comp_def]
      · intro w hw
        obtain ⟨v, hv, rfl⟩ := List.mem_map.mp hw
        exact h.plain v hv
    · simp [Function.comp_def]

instance : DecidablePred PlainArgv := fun _ => decidable_of_iff _ simpleCommand_intercalate

end Join

section DoubleQuoted

/-- Words that need no quoting, followed by one argument in double quotes. -/
def quoteLast (ws : List String) (p : String) : String :=
  " ".intercalate ws ++ " \"" ++ p ++ "\""

variable {ws : List String} {p : String}

theorem toList_quoteLast :
    (quoteLast ws p).toList =
      [' '].intercalate (ws.map String.toList) ++ ' ' :: '"' :: (p.toList ++ ['"']) := by
  simp [quoteLast]

theorem scan_quoteLast (h : PlainArgv ws) :
    scan .sh .between [] (quoteLast ws p).toList =
      (scan .sh .double [] (p.toList ++ ['"'])).map
        ((ws.map fun w => Token.bare w.toList) ++ ·) := by
  rw [toList_quoteLast, scan_intercalate_append rfl _ (by simpa using h.ne_nil)]
  · rw [List.map_map]
    rfl
  · intro w hw
    obtain ⟨v, hv, rfl⟩ := List.mem_map.mp hw
    exact h.plain v hv

/-- A shell hands a double-quoted argument on unchanged exactly when double quotes
protect all of it. -/
theorem simpleCommand_quoteLast (h : PlainArgv ws) :
    simpleCommand (quoteLast ws p) = some (ws ++ [p]) ↔ inert p.toList ∧ '\x00' ∉ p.toList := by
  have null : '\x00' ∉ (quoteLast ws p).toList ↔ '\x00' ∉ p.toList := by
    have prefixed : '\x00' ∉ [' '].intercalate (ws.map String.toList) := by
      rw [← toList_intercalate_space, null_mem_intercalate]
      rintro ⟨w, hw, hn⟩
      exact h.no_null w hw hn
    simp [toList_quoteLast, prefixed]
  rw [simpleCommand_eq_some, null, scan_quoteLast h, and_comm]
  refine and_congr_left fun _ => ?_
  constructor
  · rintro ⟨ts, scanned, -, texts⟩
    obtain ⟨us, hus, rfl⟩ := Option.map_eq_some_iff.mp scanned
    have last : us.map Token.text = [p] := by
      simpa [Function.comp_def] using texts
    exact inert_of_tight rfl rfl rfl hus (by simp [size_eq_of_text last])
  · intro hp
    refine ⟨_, by rw [scan_double_inert hp, scan]; rfl, ?_, by simp [Function.comp_def]⟩
    obtain ⟨w, rest, rfl⟩ := List.exists_cons_of_ne_nil h.ne_nil
    have simple := h.simple
    simp only [isSimple, List.map_cons, List.head?_cons, Option.any_some, List.all_cons,
      Bool.and_eq_true] at simple
    simp [isSimple, simple, Token.literal_quoted]

end DoubleQuoted

/-- The characters that a shell may treat specially, and the null character. -/
def special : List Char :=
  ['\x00', ' ', '\t', '\n', '|', '&', ';', '<', '>', '(', ')', '$', '`', '\\', '"', '\'', '*', '?',
    '[', ']', '#', '~', '=', '%', '!', '{', '}']

/-- The string holds no special character. -/
def Unspecial (w : String) : Prop := ∀ c ∈ w.toList, c ∉ special

instance : DecidablePred Unspecial := fun w => List.decidableBAll (· ∉ special) w.toList

section Unspecial

variable {w : String} {ws : List String}

theorem Unspecial.not_mem (h : Unspecial w) {c : Char} (special : c ∈ special) : c ∉ w.toList :=
  fun hc => h c hc special

theorem Unspecial.inert (h : Unspecial w) : inert w.toList ∧ '\x00' ∉ w.toList := by
  refine ⟨?_, h.not_mem (by decide)⟩
  unfold Unspecial at h
  generalize w.toList = cs at h
  induction cs with
  | nil => rfl
  | cons c cs ih =>
      obtain ⟨hc, hcs⟩ := List.forall_mem_cons.mp h
      refine inert_cons.mpr ⟨⟨?_, ?_, ?_⟩, ?_, ih hcs⟩ <;> rintro rfl <;>
        exact absurd hc (by decide)

theorem Unspecial.plain (h : Unspecial w) (ne : w ≠ "") : Dialect.sh.Plain w.toList where
  ne_nil := by simpa using ne
  ordinary := by
    intro c hc
    have := h c hc
    simp [special] at this
    refine ⟨?_, ?_, ?_, ?_, ?_⟩ <;> simp [Dialect.sh, this]
  not_comment := by
    intro hash
    exact h.not_mem (by decide) (List.mem_of_mem_head? hash)

theorem Token.hasBracket_of_not_mem {cs : List Char} (h : '[' ∉ cs) :
    (Token.bare cs).hasBracket = false := by
  induction cs with
  | nil => rfl
  | cons c cs ih =>
      rw [List.mem_cons, not_or] at h
      obtain ⟨ne, rest⟩ := h
      change ((⟨c, false⟩ : Mark) == ⟨'[', false⟩ && completesBracket (Token.bare cs) ||
        hasBracket (Token.bare cs)) = false
      rw [ih rest]
      simp [Ne.symm ne]

theorem Unspecial.literal (h : Unspecial w) : (Token.bare w.toList).literal := by
  have tilde : (Token.bare w.toList).head? ≠ some ⟨'~', false⟩ := by
    intro head
    have first : w.toList.head? = some '~' := by
      simpa [Token.bare] using head
    exact h.not_mem (by decide) (List.mem_of_mem_head? first)
  simp [Token.literal, tilde, Token.hasBracket_of_not_mem (h.not_mem (by decide))]

/-- A word without special characters may be added to a plain argument vector. -/
theorem PlainArgv.append (plain : PlainArgv ws) (h : Unspecial w) (ne : w ≠ "") :
    PlainArgv (ws ++ [w]) where
  plain := by
    intro v hv
    rcases List.mem_append.mp hv with old | new
    · exact plain.plain v old
    · obtain rfl := List.mem_singleton.mp new
      exact h.plain ne
  no_null := by
    intro v hv
    rcases List.mem_append.mp hv with old | new
    · exact plain.no_null v old
    · obtain rfl := List.mem_singleton.mp new
      exact h.inert.2
  simple := by
    obtain ⟨v, vs, rfl⟩ := List.exists_cons_of_ne_nil plain.ne_nil
    have simple := plain.simple
    simp only [isSimple, List.map_cons, List.head?_cons, Option.any_some, List.all_cons,
      Bool.and_eq_true] at simple
    simp [isSimple, simple, h.literal]

end Unspecial
end Shell
