import Mathlib.Data.List.Basic
import Mathlib.Algebra.BigOperators.Group.List.Basic
import Mathlib.Algebra.GroupWithZero.Nat

/-!
# Reading a command line into words

One scanner covers the quoting rules of the POSIX shell: backslash, single and
double quotes, comments, and blanks between words. A `Dialect` says which
characters separate words and which ones have a meaning that the scanner does
not follow, such as an operator or an expansion; it gives up at those.

A word is a list of marked characters, because a shell treats the characters of
a word differently when they are quoted. Quote removal forgets the marks.

The scanner never makes a line longer: the words it returns, counted with one
separator each, fit into the line. A line that is used up exactly holds no
quoting at all, which is how a reading is recognised as the identity.
-/

namespace Shell

/-- A character of a word; `quoted` if quoting has taken its special meaning away. -/
structure Mark where
  char : Char
  quoted : Bool
deriving Repr, DecidableEq

abbrev Token : Type := List Mark

namespace Token

/-- Quote removal. -/
def text (t : Token) : String := String.ofList (t.map Mark.char)

/-- A word none of whose characters is quoted. -/
def bare (w : List Char) : Token := w.map (⟨·, false⟩)

/-- A word all of whose characters are quoted. -/
def quoted (w : List Char) : Token := w.map (⟨·, true⟩)

@[simp] theorem text_bare (w : List Char) : (bare w).text = String.ofList w := by
  simp [text, bare, Function.comp_def]

@[simp] theorem text_quoted (w : List Char) : (quoted w).text = String.ofList w := by
  simp [text, quoted, Function.comp_def]

@[simp] theorem length_toList_text (t : Token) : t.text.toList.length = t.length := by
  simp [text]

end Token

/-- What the scanner knows about the characters of a shell language. -/
structure Dialect where
  /-- Separates words. -/
  blank : Char → Bool
  /-- Has a meaning outside quotes that the scanner does not follow. -/
  active : Char → Bool
  /-- The two characters that begin an expansion inside double quotes do so. -/
  expansions : Bool
  /-- A backslash at the end of the line stands for itself. -/
  lastBackslash : Bool

inductive Mode where
  /-- Between two words. -/
  | between
  /-- Inside a word, outside quotes. -/
  | word
  /-- After an unquoted backslash, which may have begun the word. -/
  | escape (inWord : Bool)
  | single
  | double
  /-- After a backslash inside double quotes. -/
  | doubleEscape
  | comment
deriving Repr, DecidableEq

/-- A character that stands for itself outside quotes, except that `#` begins a
comment at the start of a word. -/
def Dialect.Ordinary (d : Dialect) (c : Char) : Prop :=
  d.blank c = false ∧ d.active c = false ∧ c ≠ '\'' ∧ c ≠ '"' ∧ c ≠ '\\'

instance (d : Dialect) : DecidablePred d.Ordinary :=
  fun _ => inferInstanceAs (Decidable (_ ∧ _))

/-- Scan a line. `t` is the word under construction; the result holds it and the
words after it, or nothing if a quote stays open or a character has a meaning
that the dialect does not follow. -/
def scan (d : Dialect) : Mode → Token → List Char → Option (List Token)
  | .between, _, [] => some []
  | .word, t, [] => some [t]
  | .escape _, t, [] => if d.lastBackslash then some [t ++ [⟨'\\', true⟩]] else none
  | .single, _, [] => none
  | .double, _, [] => none
  | .doubleEscape, _, [] => none
  | .comment, _, [] => some []
  | .between, _, c :: cs =>
      if d.blank c then scan d .between [] cs
      else if d.active c then none
      else if c = '\'' then scan d .single [] cs
      else if c = '"' then scan d .double [] cs
      else if c = '\\' then scan d (.escape false) [] cs
      else if c = '#' then scan d .comment [] cs
      else scan d .word [⟨c, false⟩] cs
  | .word, t, c :: cs =>
      if d.blank c then (scan d .between [] cs).map (t :: ·)
      else if d.active c then none
      else if c = '\'' then scan d .single t cs
      else if c = '"' then scan d .double t cs
      else if c = '\\' then scan d (.escape true) t cs
      else scan d .word (t ++ [⟨c, false⟩]) cs
  | .escape inWord, t, c :: cs =>
      if c = '\n' then scan d (if inWord then .word else .between) t cs
      else scan d .word (t ++ [⟨c, true⟩]) cs
  | .single, t, c :: cs =>
      if c = '\'' then scan d .word t cs else scan d .single (t ++ [⟨c, true⟩]) cs
  | .double, t, c :: cs =>
      if c = '"' then scan d .word t cs
      else if c = '\\' then scan d .doubleEscape t cs
      else if d.expansions ∧ (c = '$' ∨ c = '`') then none
      else scan d .double (t ++ [⟨c, true⟩]) cs
  | .doubleEscape, t, c :: cs =>
      if c = '\n' then scan d .double t cs
      else if c = '$' ∨ c = '`' ∨ c = '"' ∨ c = '\\' then scan d .double (t ++ [⟨c, true⟩]) cs
      else scan d .double (t ++ [⟨'\\', true⟩, ⟨c, true⟩]) cs
  | .comment, _, c :: cs =>
      if c = '\n' then (if d.active c then none else scan d .between [] cs)
      else scan d .comment [] cs

section Bare

variable {d : Dialect} {w : List Char}

theorem scan_word_bare (ordinary : ∀ c ∈ w, d.Ordinary c) (t : Token) (cs : List Char) :
    scan d .word t (w ++ cs) = scan d .word (t ++ Token.bare w) cs := by
  induction w generalizing t with
  | nil => simp [Token.bare]
  | cons c w ih =>
      obtain ⟨hb, ha, hs, hd, he⟩ := ordinary c List.mem_cons_self
      rw [List.cons_append, scan]
      simp only [hb, ha, hs, hd, he, Bool.false_eq_true, ↓reduceIte]
      rw [ih (fun c hc => ordinary c (List.mem_cons_of_mem _ hc))]
      simp [Token.bare]

/-- A word that needs no quoting: nonempty, of ordinary characters, not a comment. -/
structure Dialect.Plain (d : Dialect) (w : List Char) : Prop where
  ne_nil : w ≠ []
  ordinary : ∀ c ∈ w, d.Ordinary c
  not_comment : w.head? ≠ some '#'

theorem scan_between_bare (plain : d.Plain w) (cs : List Char) :
    scan d .between [] (w ++ cs) = scan d .word (Token.bare w) cs := by
  cases w with
  | nil => exact absurd rfl plain.ne_nil
  | cons c w =>
      obtain ⟨hb, ha, hs, hd, he⟩ := plain.ordinary c List.mem_cons_self
      have hc : c ≠ '#' := by simpa using plain.not_comment
      rw [List.cons_append, scan]
      simp only [hb, ha, hs, hd, he, hc, Bool.false_eq_true, ↓reduceIte]
      rw [scan_word_bare (fun c hc => plain.ordinary c (List.mem_cons_of_mem _ hc))]
      simp [Token.bare]

/-- Plain words and one blank after each are read one by one. -/
theorem scan_intercalate_append {ws : List (List Char)} (space : d.blank ' ' = true)
    (plain : ∀ w ∈ ws, d.Plain w) (ne : ws ≠ []) (cs : List Char) :
    scan d .between [] ([' '].intercalate ws ++ ' ' :: cs) =
      (scan d .between [] cs).map (ws.map Token.bare ++ ·) := by
  induction ws with
  | nil => exact absurd rfl ne
  | cons w ws ih =>
      have hw := plain w List.mem_cons_self
      cases ws with
      | nil =>
          rw [List.intercalate_singleton, scan_between_bare hw, scan, if_pos space]
          rfl
      | cons v vs =>
          have rest := ih (fun u hu => plain u (List.mem_cons_of_mem _ hu)) (List.cons_ne_nil v vs)
          rw [List.intercalate_cons_cons, List.append_assoc, List.append_assoc,
            scan_between_bare hw, List.singleton_append, scan, if_pos space, rest, Option.map_map]
          rfl

/-- Plain words separated by one blank are read back unchanged. -/
theorem scan_intercalate {ws : List (List Char)} (space : d.blank ' ' = true)
    (plain : ∀ w ∈ ws, d.Plain w) :
    scan d .between [] ([' '].intercalate ws) = some (ws.map Token.bare) := by
  induction ws with
  | nil => rfl
  | cons w ws ih =>
      have hw := plain w List.mem_cons_self
      cases ws with
      | nil =>
          rw [List.intercalate_singleton, ← List.append_nil w, scan_between_bare hw]
          simp [scan]
      | cons v vs =>
          have rest := ih fun u hu => plain u (List.mem_cons_of_mem _ hu)
          rw [List.intercalate_cons_cons, List.append_assoc, scan_between_bare hw,
            List.singleton_append, scan, if_pos space, rest]
          rfl

end Bare

/-- The length of a reading: its words, with one separator each. -/
def size (ts : List Token) : Nat := (ts.map (·.length + 1)).sum

@[simp] theorem size_nil : size [] = 0 := rfl

@[simp] theorem size_cons (t : Token) (ts : List Token) :
    size (t :: ts) = t.length + 1 + size ts := by
  simp [size]

/-- An open quote costs the character that closes it. -/
def Mode.cost : Mode → Nat
  | .single => 1
  | .double => 1
  | _ => 0

/-- A reading is never longer than the line. -/
theorem scan_size {d : Dialect} (hd : d.lastBackslash = false) {m : Mode} {t : Token}
    {cs : List Char} {ts : List Token} (h : scan d m t cs = some ts) :
    size ts + m.cost ≤ t.length + cs.length + 1 := by
  induction cs generalizing m t ts with
  | nil =>
      cases m <;> simp [scan, hd] at h <;> subst h <;> simp [Mode.cost]
  | cons c cs ih =>
      cases m with
      | between =>
          simp only [scan] at h
          split_ifs at h <;> have := ih h <;> simp [Mode.cost] at this ⊢ <;> omega
      | word =>
          simp only [scan] at h
          split_ifs at h
          · obtain ⟨rest, hr, rfl⟩ := Option.map_eq_some_iff.mp h
            have := ih hr
            simp [Mode.cost] at this ⊢
            omega
          all_goals have := ih h; simp [Mode.cost] at this ⊢; omega
      | escape inWord =>
          simp only [scan] at h
          cases inWord <;> split_ifs at h <;> have := ih h <;> simp [Mode.cost] at this ⊢ <;> omega
      | single =>
          simp only [scan] at h
          split_ifs at h <;> have := ih h <;> simp [Mode.cost] at this ⊢ <;> omega
      | double =>
          simp only [scan] at h
          split_ifs at h <;> have := ih h <;> simp [Mode.cost] at this ⊢ <;> omega
      | doubleEscape =>
          simp only [scan] at h
          split_ifs at h <;> have := ih h <;> simp [Mode.cost] at this ⊢ <;> omega
      | comment =>
          simp only [scan] at h
          split_ifs at h <;> have := ih h <;> simp [Mode.cost] at this ⊢ <;> omega

section Tight

variable {d : Dialect}

/-- A line that its reading uses up holds no quoting, comment or superfluous
blank. The two statements, for a scan between words and for one inside the word
`t`, need each other. -/
theorem scan_tight (hd : d.lastBackslash = false) (cs : List Char) :
    (∀ ts, scan d .between [] cs = some ts → cs.length + 1 ≤ size ts →
      (∀ c ∈ cs, d.blank c ∨ d.Ordinary c) ∧
        ∃ ws : List (List Char), ts = ws.map Token.bare ∧ ∀ w ∈ ws, d.Plain w) ∧
    (∀ t ts, scan d .word t cs = some ts → t.length + cs.length + 1 ≤ size ts →
      (∀ c ∈ cs, d.blank c ∨ d.Ordinary c) ∧
        ∃ (u : List Char) (ws : List (List Char)),
          ts = (t ++ Token.bare u) :: ws.map Token.bare ∧ (∀ c ∈ u, d.Ordinary c) ∧
            ∀ w ∈ ws, d.Plain w) := by
  induction cs with
  | nil =>
      constructor
      · intro ts h tight
        obtain rfl : [] = ts := by simpa [scan] using h
        simp at tight
      · intro t ts h _
        obtain rfl : [t] = ts := by simpa [scan] using h
        exact ⟨by simp, [], [], by simp [Token.bare], by simp, by simp⟩
  | cons c cs ih =>
      obtain ⟨between, word⟩ := ih
      constructor
      · intro ts h tight
        rw [List.length_cons] at tight
        simp only [scan] at h
        split_ifs at h with hb ha hs hq he hc
        -- A blank, a quote, a backslash or a comment here leaves the reading short.
        · have := scan_size hd h; simp [Mode.cost] at this; omega
        · have := scan_size hd h; simp [Mode.cost] at this; omega
        · have := scan_size hd h; simp [Mode.cost] at this; omega
        · have := scan_size hd h; simp [Mode.cost] at this; omega
        · have := scan_size hd h; simp [Mode.cost] at this; omega
        · have ordinary : d.Ordinary c := ⟨by simpa using hb, by simpa using ha, hs, hq, he⟩
          obtain ⟨chars, u, ws, rfl, hu, hw⟩ := word _ _ h (by simp; omega)
          refine ⟨List.forall_mem_cons.mpr ⟨.inr ordinary, chars⟩, (c :: u) :: ws, rfl, ?_⟩
          exact List.forall_mem_cons.mpr
            ⟨⟨by simp, List.forall_mem_cons.mpr ⟨ordinary, hu⟩, by simpa using hc⟩, hw⟩
      · intro t ts h tight
        rw [List.length_cons] at tight
        simp only [scan] at h
        split_ifs at h with hb ha hs hq he
        · obtain ⟨rest, hr, rfl⟩ := Option.map_eq_some_iff.mp h
          rw [size_cons] at tight
          obtain ⟨chars, ws, rfl, hw⟩ := between _ hr (by omega)
          exact ⟨List.forall_mem_cons.mpr ⟨.inl hb, chars⟩, [], ws,
            by simp [Token.bare], by simp, hw⟩
        · have := scan_size hd h; simp [Mode.cost] at this; omega
        · have := scan_size hd h; simp [Mode.cost] at this; omega
        · have := scan_size hd h; simp [Mode.cost] at this; omega
        · have ordinary : d.Ordinary c := ⟨by simpa using hb, by simpa using ha, hs, hq, he⟩
          obtain ⟨chars, u, ws, rfl, hu, hw⟩ := word _ _ h (by simp; omega)
          exact ⟨List.forall_mem_cons.mpr ⟨.inr ordinary, chars⟩, c :: u, ws,
            by simp [Token.bare], List.forall_mem_cons.mpr ⟨ordinary, hu⟩, hw⟩

/-- A line whose reading has the line's length is a list of plain words. -/
theorem plain_of_tight (hd : d.lastBackslash = false) {cs : List Char} {ts : List Token}
    (h : scan d .between [] cs = some ts) (tight : cs.length + 1 ≤ size ts) :
    ∃ ws : List (List Char), ts = ws.map Token.bare ∧ ∀ w ∈ ws, d.Plain w :=
  ((scan_tight hd cs).1 ts h tight).2

/-- If the rest of a line is used up inside a word, no quote stands in it. -/
theorem no_quote_of_tight (hd : d.lastBackslash = false) {t : Token} {cs : List Char}
    {ts : List Token} (space : d.blank '"' = false) (h : scan d .word t cs = some ts)
    (tight : t.length + cs.length + 1 ≤ size ts) : '"' ∉ cs := by
  intro hq
  rcases ((scan_tight hd cs).2 t ts h tight).1 _ hq with blank | ordinary
  · simp [space] at blank
  · exact ordinary.2.2.2.1 rfl

end Tight

section Double

/-- A string that may follow a backslash inside double quotes without losing it. -/
def keepsBackslash (p : List Char) : Bool :=
  p.head?.any fun e => e != '\\' && e != '\n'

/-- A string that double quotes protect in a shell: it holds no double quote and
nothing that begins an expansion, and every backslash in it is followed by a
character before which a backslash stays literal. -/
def inert : List Char → Bool
  | [] => true
  | c :: cs =>
      (c != '"' && c != '$' && c != '`') &&
        (c != '\\' || keepsBackslash cs) && inert cs

variable {d : Dialect} {p : List Char}

theorem inert_cons {c : Char} :
    inert (c :: p) ↔ (c ≠ '"' ∧ c ≠ '$' ∧ c ≠ '`') ∧ (c = '\\' → keepsBackslash p) ∧ inert p := by
  simp only [inert, Bool.and_eq_true, bne_iff_ne, Bool.or_eq_true, and_assoc,
    or_iff_not_imp_left, not_not, ne_eq]

theorem keepsBackslash_cons {c : Char} : keepsBackslash (c :: p) ↔ c ≠ '\\' ∧ c ≠ '\n' := by
  simp [keepsBackslash]

/-- The two statements are for a scan inside double quotes and for one that has
just read a backslash there. -/
theorem scan_inert (p cs : List Char) :
    (∀ t, inert p → scan d .double t (p ++ '"' :: cs) = scan d .word (t ++ Token.quoted p) cs) ∧
    (∀ t, inert p → keepsBackslash p →
      scan d .doubleEscape t (p ++ '"' :: cs) =
        scan d .word (t ++ Token.quoted ('\\' :: p)) cs) := by
  induction p with
  | nil =>
      refine ⟨fun t _ => by simp [scan, Token.quoted], fun t _ hk => ?_⟩
      simp [keepsBackslash] at hk
  | cons c p ih =>
      obtain ⟨double, escape⟩ := ih
      constructor
      · intro t h
        obtain ⟨⟨hq, hd, hb⟩, hk, hp⟩ := inert_cons.mp h
        rw [List.cons_append, scan, if_neg hq]
        by_cases he : c = '\\'
        · rw [if_pos he, escape t hp (hk he), he]
        · rw [if_neg he, if_neg (by simp [hd, hb]), double _ hp]
          simp [Token.quoted]
      · intro t h hk
        obtain ⟨⟨hq, hd, hb⟩, -, hp⟩ := inert_cons.mp h
        obtain ⟨he, hn⟩ := keepsBackslash_cons.mp hk
        rw [List.cons_append, scan, if_neg hn, if_neg (by simp [hq, hd, hb, he]), double _ hp]
        simp [Token.quoted]

/-- Double quotes around an inert string add exactly its characters to the word. -/
theorem scan_double_inert (h : inert p) (t : Token) (cs : List Char) :
    scan d .double t (p ++ '"' :: cs) = scan d .word (t ++ Token.quoted p) cs :=
  (scan_inert p cs).1 t h

theorem scan_double_tight (hd : d.lastBackslash = false) (hx : d.expansions = true)
    (space : d.blank '"' = false) (p : List Char) :
    (∀ t ts, scan d .double t (p ++ ['"']) = some ts → t.length + p.length + 1 ≤ size ts →
      inert p) ∧
    (∀ t ts, scan d .doubleEscape t (p ++ ['"']) = some ts → t.length + p.length + 2 ≤ size ts →
      inert p ∧ keepsBackslash p) := by
  induction p with
  | nil =>
      refine ⟨fun _ _ _ _ => rfl, fun t ts h _ => ?_⟩
      simp [scan] at h
  | cons c p ih =>
      obtain ⟨double, escape⟩ := ih
      constructor
      · intro t ts h tight
        rw [List.length_cons] at tight
        simp only [List.cons_append, scan, hx] at h
        split_ifs at h with hq he ha
        · -- The quote ends here, so the closing quote of the line stands outside quotes.
          exact absurd (by simp) (no_quote_of_tight hd space h (by simp; omega))
        · obtain ⟨hp, hk⟩ := escape t ts h (by omega)
          exact inert_cons.mpr ⟨by simp [he], fun _ => hk, hp⟩
        · have hp := double _ ts h (by simp; omega)
          exact inert_cons.mpr ⟨⟨hq, by tauto, by tauto⟩, fun e => absurd e he, hp⟩
      · intro t ts h tight
        rw [List.length_cons] at tight
        simp only [List.cons_append, scan] at h
        split_ifs at h with hn hs
        · have := scan_size hd h; simp [Mode.cost] at this; omega
        · have := scan_size hd h; simp [Mode.cost] at this; omega
        · have hp := double _ ts h (by simp; omega)
          simp only [not_or] at hs
          exact ⟨inert_cons.mpr ⟨⟨hs.2.2.1, hs.1, hs.2.1⟩, fun e => absurd e hs.2.2.2, hp⟩,
            keepsBackslash_cons.mpr ⟨hs.2.2.2, hn⟩⟩

/-- Conversely, a string that keeps its length inside double quotes is inert: an
inner quote, an escape or a line continuation would each cost a character. -/
theorem inert_of_tight (hd : d.lastBackslash = false) (hx : d.expansions = true)
    (space : d.blank '"' = false) {t : Token} {ts : List Token}
    (h : scan d .double t (p ++ ['"']) = some ts) (tight : t.length + p.length + 1 ≤ size ts) :
    inert p :=
  (scan_double_tight hd hx space p).1 t ts h tight

end Double

end Shell
