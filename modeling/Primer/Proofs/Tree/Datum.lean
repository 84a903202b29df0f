/-
  Primer/Proofs/Tree/Datum.lean
  =============================
  **Nested lists and their text.**

  A `Datum` is what an S-expression denotes before anything is known of the words in it: a word, a
  quoted text, or a list of such.  Items of a list stand behind each other with a space between
  them and parentheses around them.

  The text of a datum tells the datum (`Datum.chars_inj`).  Its first character tells which of the
  three it is.  A word ends where a space, a line end or a parenthesis comes; a quoted text ends at
  the first quote without a backslash before it, since an escaped character can be read back from
  the front of a text (`Quoted.unescape_escape`) and never starts with a quote.
-/
import Mathlib.Data.List.Basic
import Primer.Text.Quoted

namespace Primer

/-! ### Quoted texts -/

namespace Quoted

/-- The value of a hexadecimal digit in lower case. -/
def digitValue (c : Char) : Nat := if c.toNat < 'a'.toNat then c.toNat - '0'.toNat else c.toNat - 87

/-- The number with those hexadecimal digits. -/
def ofHex (cs : List Char) : Nat := cs.foldl (fun n c => 16 * n + digitValue c) 0

theorem digitValue_digitChar : ∀ n < 16, digitValue (Nat.digitChar n) = n := by decide

theorem digitChar_ne_close : ∀ n < 16, Nat.digitChar n ≠ '\x7d' := by decide

theorem ofHex_toDigits (n : Nat) : ofHex (Nat.toDigits 16 n) = n := by
  induction n using Nat.strongRecOn with
  | ind n ih =>
    rw [Nat.toDigits_eq_if (by decide)]
    split
    next hlt =>
      have hvalue := digitValue_digitChar n hlt
      simpa [ofHex] using hvalue
    next hge =>
      have hvalue := digitValue_digitChar (n % 16) (Nat.mod_lt n (by decide))
      have hdiv := ih (n / 16) (by omega)
      unfold ofHex at hdiv ⊢
      rw [List.foldl_append, hdiv, List.foldl_cons, List.foldl_nil, hvalue]
      omega

theorem close_not_mem_toDigits (n : Nat) : '\x7d' ∉ Nat.toDigits 16 n := by
  induction n using Nat.strongRecOn with
  | ind n ih =>
    rw [Nat.toDigits_eq_if (by decide)]
    split
    next hlt =>
      rw [List.mem_singleton]
      exact (digitChar_ne_close n hlt).symm
    next hge =>
      rw [List.mem_append, List.mem_singleton]
      rintro (hmem | heq)
      · exact ih (n / 16) (by omega) hmem
      · exact digitChar_ne_close (n % 16) (Nat.mod_lt n (by decide)) heq.symm

/-- The character that an escaped one at the front of a text stands for, and the text behind. -/
def unescape : List Char → Option (Char × List Char)
  | '\\' :: '"' :: cs => some ('"', cs)
  | '\\' :: '\\' :: cs => some ('\\', cs)
  | '\\' :: 'n' :: cs => some ('\n', cs)
  | '\\' :: 't' :: cs => some ('\t', cs)
  | '\\' :: 'r' :: cs => some ('\r', cs)
  | '\\' :: '0' :: cs => some ('\x00', cs)
  | '\\' :: 'u' :: '\x7b' :: cs =>
    some (.ofNat (ofHex (cs.takeWhile (· != '\x7d'))), (cs.dropWhile (· != '\x7d')).tail)
  | c :: cs => some (c, cs)
  | [] => none

theorem unescape_hex (n : Nat) (cs : List Char) :
    unescape ('\\' :: 'u' :: '\x7b' :: (Nat.toDigits 16 n ++ '\x7d' :: cs)) =
      some (.ofNat n, cs) := by
  have hall : ∀ c ∈ Nat.toDigits 16 n, (c != '\x7d') = true := by
    intro c hc
    rw [bne_iff_ne]
    rintro rfl
    exact close_not_mem_toDigits n hc
  show some (Char.ofNat (ofHex (List.takeWhile _ _)), (List.dropWhile _ _).tail) = _
  rw [List.takeWhile_append_of_pos hall, List.dropWhile_append_of_pos hall]
  simp [ofHex_toDigits]

theorem unescape_escape (c : Char) (cs : List Char) :
    unescape ((escape c).toList ++ cs) = some (c, cs) := by
  unfold escape
  split
  next h => rw [h]; rfl
  next =>
  split
  next h => rw [h]; rfl
  next hslash =>
  split
  next h => rw [h]; rfl
  next =>
  split
  next h => rw [h]; rfl
  next =>
  split
  next h => rw [h]; rfl
  next =>
  split
  next h => rw [h]; rfl
  next =>
  split
  · have hdigits := unescape_hex c.toNat cs
    rw [Char.ofNat_toNat] at hdigits
    simpa [hex] using hdigits
  · have hplain : unescape (c :: cs) = some (c, cs) := by
      unfold unescape
      split <;> simp_all
    simpa using hplain

/-- An escaped character is not the end of the text. -/
theorem escape_head (c : Char) : ∃ a as, (escape c).toList = a :: as ∧ a ≠ '"' := by
  unfold escape
  split
  · exact ⟨'\\', ['"'], rfl, by decide⟩
  next hquote =>
  repeat' split
  all_goals first
    | exact ⟨'\\', _, by simp; rfl, by decide⟩
    | exact ⟨c, [], by simp, hquote⟩

theorem escapes_inj {cs cs' r r' : List Char}
    (h : cs.flatMap (fun c => (escape c).toList) ++ '"' :: r =
      cs'.flatMap (fun c => (escape c).toList) ++ '"' :: r') : cs = cs' ∧ r = r' := by
  induction cs generalizing cs' with
  | nil =>
    cases cs' with
    | nil => exact ⟨rfl, (List.cons.inj h).2⟩
    | cons c' cs' =>
      obtain ⟨a, as, ha, hne⟩ := escape_head c'
      rw [List.flatMap_cons, ha] at h
      exact absurd (List.cons.inj h).1.symm hne
  | cons c cs ih =>
    cases cs' with
    | nil =>
      obtain ⟨a, as, ha, hne⟩ := escape_head c
      rw [List.flatMap_cons, ha] at h
      exact absurd (List.cons.inj h).1 hne
    | cons c' cs' =>
      rw [List.flatMap_cons, List.flatMap_cons, List.append_assoc, List.append_assoc] at h
      have hread := congrArg unescape h
      rw [unescape_escape, unescape_escape] at hread
      obtain ⟨rfl, hrest⟩ := Prod.mk.inj (Option.some.inj hread)
      obtain ⟨rfl, hr⟩ := ih hrest
      exact ⟨rfl, hr⟩

/-- Where a quoted text stands at the front of another, both it and what is behind are known. -/
theorem quote_inj {s s' : String} {r r' : List Char}
    (h : (quote s).toList ++ r = (quote s').toList ++ r') : s = s' ∧ r = r' := by
  have hchars (s : String) (r : List Char) : (quote s).toList ++ r =
      '"' :: (s.toList.flatMap (fun c => (escape c).toList) ++ '"' :: r) := by
    simp [quote, List.flatMap_map]
  rw [hchars, hchars] at h
  obtain ⟨hs, hr⟩ := escapes_inj (List.cons.inj h).2
  exact ⟨String.toList_inj.1 hs, hr⟩

end Quoted

/-! ### Data -/

/-- A word, a quoted text or a list. -/
inductive Datum where
  | word (text : String)
  | quoted (text : String)
  | list (items : List Datum)

namespace Datum

mutual

/-- How a datum is written. -/
def chars : Datum → List Char
  | .word text => text.toList
  | .quoted text => (Quoted.quote text).toList
  | .list [] => ['(', ')']
  | .list (d :: ds) => '(' :: (d.chars ++ (charsBehind ' ' ds ++ [')']))

/-- Data, each with the separator before it. -/
def charsBehind (separator : Char) : List Datum → List Char
  | [] => []
  | d :: ds => separator :: (d.chars ++ charsBehind separator ds)

end

/-- Data with the separator between them. -/
def charsOf (separator : Char) : List Datum → List Char
  | [] => []
  | d :: ds => d.chars ++ charsBehind separator ds

theorem charsOf_eq_intercalate (separator : Char) (ds : List Datum) :
    charsOf separator ds = [separator].intercalate (ds.map chars) := by
  have hcons (d : Datum) (ds : List Datum) : charsBehind separator (d :: ds) =
      separator :: charsOf separator (d :: ds) := by rw [charsBehind, charsOf]
  induction ds with
  | nil => rfl
  | cons d ds ih =>
    cases ds with
    | nil => simp [charsOf, charsBehind]
    | cons e ds =>
      rw [charsOf, hcons, ih]
      simp only [List.map_cons, List.intercalate_cons_cons, List.append_assoc]
      rfl

/-- Does a word end before this character? -/
def isDelimiter (c : Char) : Bool := c ∈ [' ', '\n', ')']

/-- Can the text be told from other data wherever it stands? -/
def isWord (text : String) : Bool :=
  !text.toList.isEmpty && text.toList.all fun c => !(c ∈ ['(', '"'] || isDelimiter c)

mutual

/-- All words in the datum are words. -/
def Plain : Datum → Prop
  | .word text => isWord text = true
  | .quoted _ => True
  | .list ds => AllPlain ds

def AllPlain : List Datum → Prop
  | [] => True
  | d :: ds => d.Plain ∧ AllPlain ds

end

/-- A word cannot go on with this text. -/
def Stops (r : List Char) : Prop := ∀ c ∈ r.head?, isDelimiter c = true

/-- This text goes on behind a whole list. -/
def Closes (r : List Char) : Prop := ∀ c ∈ r.head?, c = ')'

theorem Closes.stops {r : List Char} (h : Closes r) : Stops r := by
  intro c hc
  rw [h c hc]
  rfl

/-- A separator: between items of a list, or between lines. -/
def IsSeparator (c : Char) : Prop := c = ' ' ∨ c = '\n'

theorem IsSeparator.isDelimiter {c : Char} (h : IsSeparator c) : isDelimiter c = true := by
  rcases h with rfl | rfl <;> rfl

theorem IsSeparator.ne_close {c : Char} (h : IsSeparator c) : c ≠ ')' := by
  rcases h with rfl | rfl <;> decide

/-- What goes on behind a datum of a row. -/
theorem stops_charsBehind {separator : Char} (hsep : IsSeparator separator) (ds : List Datum)
    {r : List Char} (hr : Closes r) : Stops (charsBehind separator ds ++ r) := by
  cases ds with
  | nil => exact hr.stops
  | cons d ds =>
    rintro c ⟨⟩
    exact hsep.isDelimiter

theorem closes_nil : Closes [] := by
  rintro c ⟨⟩

theorem closes_close (r : List Char) : Closes (')' :: r) := by
  rintro c ⟨⟩
  rfl

/-- A text is a word if its characters are of a class that leaves the others out. -/
theorem isWord_of_all {text : String} (p : Char → Bool)
    (hp : ['(', '"', ' ', '\n', ')'].any p = false) (hne : text.toList ≠ [])
    (h : ∀ c ∈ text.toList, p c = true) : isWord text = true := by
  unfold isWord
  rw [Bool.and_eq_true, Bool.not_eq_true', List.isEmpty_eq_false_iff, List.all_eq_true]
  refine ⟨hne, fun c hc => ?_⟩
  have hnot : c ∉ ['(', '"', ' ', '\n', ')'] := by
    intro hmem
    exact List.any_eq_false.1 hp c hmem (h c hc)
  simpa [isDelimiter, and_assoc] using hnot

/-! ### First characters -/

/-- The first character of a word is no parenthesis and no quote. -/
theorem word_head {text : String} (h : isWord text = true) :
    ∃ c cs, text.toList = c :: cs ∧ c ≠ '(' ∧ c ≠ '"' ∧ isDelimiter c = false := by
  unfold isWord at h
  cases hcs : text.toList with
  | nil => simp [hcs] at h
  | cons c cs =>
    rw [hcs] at h
    simp only [List.isEmpty_cons, List.all_cons, Bool.and_eq_true, Bool.not_eq_true',
      Bool.or_eq_false_iff, decide_eq_false_iff_not, List.mem_cons, not_or] at h
    exact ⟨c, cs, rfl, h.2.1.1.1, h.2.1.1.2.1, h.2.1.2⟩

theorem quote_head (text : String) : ∃ cs, (Quoted.quote text).toList = '"' :: cs := by
  simp [Quoted.quote]

theorem chars_list (ds : List Datum) : (list ds).chars = '(' :: (charsOf ' ' ds ++ [')']) := by
  cases ds with
  | nil => rw [chars, charsOf, List.nil_append]
  | cons d ds => rw [chars, charsOf, List.append_assoc]

/-- Where a word ends is known from what stands behind. -/
theorem word_inj {text text' : String} {r r' : List Char} (h : isWord text = true)
    (h' : isWord text' = true) (hr : Stops r) (hr' : Stops r')
    (heq : text.toList ++ r = text'.toList ++ r') : text = text' ∧ r = r' := by
  have htake {text : String} {r : List Char} (h : isWord text = true) (hr : Stops r) :
      (text.toList ++ r).takeWhile (fun c => !isDelimiter c) = text.toList := by
    unfold isWord at h
    rw [List.takeWhile_append_of_pos (by grind)]
    cases r with
    | nil => simp
    | cons c r => simp [hr c rfl]
  have htext := congrArg (List.takeWhile fun c => !isDelimiter c) heq
  rw [htake h hr, htake h' hr'] at htext
  rw [htext] at heq
  exact ⟨String.toList_inj.1 htext, List.append_cancel_left heq⟩

/-- No datum starts with a parenthesis that closes, or with a separator. -/
theorem chars_head {d : Datum} (h : d.Plain) :
    ∃ c cs, d.chars = c :: cs ∧ isDelimiter c = false := by
  cases d with
  | word text =>
    obtain ⟨c, cs, hcs, -, -, hc⟩ := word_head h
    exact ⟨c, cs, by rw [chars, hcs], hc⟩
  | quoted text =>
    obtain ⟨cs, hcs⟩ := quote_head text
    exact ⟨_, cs, by rw [chars, hcs], rfl⟩
  | list ds =>
    exact ⟨_, _, chars_list ds, rfl⟩

/-! ### The text tells the datum -/

mutual

theorem chars_inj : ∀ {d d' : Datum} {r r' : List Char}, d.Plain → d'.Plain → Stops r → Stops r' →
    d.chars ++ r = d'.chars ++ r' → d = d' ∧ r = r'
  | .word text, d', r, r', hd, hd', hr, hr', heq => by
    obtain ⟨c, cs, hcs, hparen, hquote, -⟩ := word_head hd
    cases d' with
    | word text' =>
      rw [chars, chars] at heq
      obtain ⟨rfl, rfl⟩ := word_inj hd hd' hr hr' heq
      exact ⟨rfl, rfl⟩
    | quoted text' =>
      obtain ⟨cs', hcs'⟩ := quote_head text'
      rw [chars, chars, hcs, hcs'] at heq
      exact absurd (List.cons.inj heq).1 hquote
    | list ds' =>
      rw [chars, chars_list, hcs] at heq
      exact absurd (List.cons.inj heq).1 hparen
  | .quoted text, d', r, r', hd, hd', hr, hr', heq => by
    obtain ⟨cs, hcs⟩ := quote_head text
    cases d' with
    | word text' =>
      obtain ⟨c', cs', hcs', -, hquote, -⟩ := word_head hd'
      rw [chars, chars, hcs, hcs'] at heq
      exact absurd (List.cons.inj heq).1.symm hquote
    | quoted text' =>
      rw [chars, chars] at heq
      obtain ⟨rfl, rfl⟩ := Quoted.quote_inj heq
      exact ⟨rfl, rfl⟩
    | list ds' =>
      rw [chars, chars_list, hcs] at heq
      exact absurd (List.cons.inj heq).1 (by decide)
  | .list ds, d', r, r', hd, hd', hr, hr', heq => by
    rw [chars_list] at heq
    cases d' with
    | word text' =>
      obtain ⟨c', cs', hcs', hparen, -, -⟩ := word_head hd'
      rw [chars, hcs'] at heq
      exact absurd (List.cons.inj heq).1.symm hparen
    | quoted text' =>
      obtain ⟨cs', hcs'⟩ := quote_head text'
      rw [chars, hcs'] at heq
      exact absurd (List.cons.inj heq).1 (by decide)
    | list ds' =>
      rw [chars_list, List.cons_append, List.cons_append, List.append_assoc,
        List.append_assoc] at heq
      obtain ⟨rfl, hrest⟩ := charsOf_inj (.inl rfl) hd hd' (closes_close r) (closes_close r')
        (List.cons.inj heq).2
      exact ⟨rfl, (List.cons.inj hrest).2⟩

theorem charsOf_inj : ∀ {ds ds' : List Datum} {r r' : List Char} {separator : Char},
    IsSeparator separator → AllPlain ds → AllPlain ds' → Closes r → Closes r' →
    charsOf separator ds ++ r = charsOf separator ds' ++ r' → ds = ds' ∧ r = r'
  | [], [], _, _, _, _, _, _, _, _, heq => ⟨rfl, heq⟩
  | [], d' :: ds', r, r', separator, _, _, hds', hr, _, heq => by
    obtain ⟨c, cs, hcs, hc⟩ := chars_head hds'.1
    rw [charsOf, charsOf, hcs] at heq
    have hclose := hr c (by rw [← List.nil_append r, heq]; rfl)
    rw [hclose] at hc
    exact absurd hc (by decide)
  | d :: ds, [], r, r', separator, _, hds, _, _, hr', heq => by
    obtain ⟨c, cs, hcs, hc⟩ := chars_head hds.1
    rw [charsOf, charsOf, hcs] at heq
    have hclose := hr' c (by rw [← List.nil_append r', ← heq]; rfl)
    rw [hclose] at hc
    exact absurd hc (by decide)
  | d :: ds, d' :: ds', r, r', separator, hsep, hds, hds', hr, hr', heq => by
    rw [charsOf, charsOf, List.append_assoc, List.append_assoc] at heq
    obtain ⟨rfl, hrest⟩ := chars_inj hds.1 hds'.1 (stops_charsBehind hsep ds hr)
      (stops_charsBehind hsep ds' hr') heq
    obtain ⟨rfl, rfl⟩ := charsBehind_inj hsep hds.2 hds'.2 hr hr' hrest
    exact ⟨rfl, rfl⟩

theorem charsBehind_inj : ∀ {ds ds' : List Datum} {r r' : List Char} {separator : Char},
    IsSeparator separator → AllPlain ds → AllPlain ds' → Closes r → Closes r' →
    charsBehind separator ds ++ r = charsBehind separator ds' ++ r' → ds = ds' ∧ r = r'
  | [], [], _, _, _, _, _, _, _, _, heq => ⟨rfl, heq⟩
  | [], d' :: ds', r, r', separator, hsep, _, _, hr, _, heq => by
    have hclose := hr separator (by rw [← List.nil_append r, ← charsBehind, heq]; rfl)
    exact absurd hclose hsep.ne_close
  | d :: ds, [], r, r', separator, hsep, _, _, _, hr', heq => by
    have hclose := hr' separator (by rw [← List.nil_append r', ← charsBehind, ← heq]; rfl)
    exact absurd hclose hsep.ne_close
  | d :: ds, d' :: ds', r, r', separator, hsep, hds, hds', hr, hr', heq => by
    rw [charsBehind, charsBehind, List.cons_append, List.cons_append, List.append_assoc,
      List.append_assoc] at heq
    obtain ⟨rfl, hrest⟩ := chars_inj hds.1 hds'.1 (stops_charsBehind hsep ds hr)
      (stops_charsBehind hsep ds' hr') (List.cons.inj heq).2
    obtain ⟨rfl, rfl⟩ := charsBehind_inj hsep hds.2 hds'.2 hr hr' hrest
    exact ⟨rfl, rfl⟩

end

end Datum

end Primer
