import NInfer.Foundation.Backtracking
import NInfer.Text.Utf8

/-!
# Cutting text into words

Before merging, the tokenizer cuts a text into words.  `for_each_qwen_word` (`tokenizer.cpp`) does
it with two scanners written by hand, one over bytes for ASCII text and one over code points.  Both
look at what is left of the text, decide how long the next word is and go on behind it, so each is
given here by the length of the next word, `asciiWordLength` and `unicodeWordLength`.

The words are meant to be the matches of a regular expression, `qwenPattern`, as a backtracking
engine finds them.  `firstMatch_qwenPattern` goes through its alternatives and finds that the first
one that matches reads exactly the next word of the scanner; `qwen_words` then says that the words
are the matches, and that on ASCII text the two scanners agree.
-/

namespace NInfer.Frontend

open NInfer.Text

/-! ## Character classes -/

/-- The byte of an ASCII character. -/
def byteOf (c : Char) : Byte := BitVec.ofNat 8 c.toNat

def isNewline (codepoint : ℕ) : Bool := codepoint = '\r'.toNat || codepoint = '\n'.toNat

def asciiLetter (cp : ℕ) : Bool :=
  ('A'.toNat ≤ cp && cp ≤ 'Z'.toNat) || ('a'.toNat ≤ cp && cp ≤ 'z'.toNat)

def asciiNumber (cp : ℕ) : Bool := '0'.toNat ≤ cp && cp ≤ '9'.toNat

def asciiWhitespace (cp : ℕ) : Bool :=
  cp = ' '.toNat || cp = '\t'.toNat || cp = '\n'.toNat || cp = '\r'.toNat || cp = 0x0b || cp = 0x0c

section

variable (category : ℕ → Category)

def isLetterOrMark (codepoint : ℕ) : Bool :=
  isLetter category codepoint || isMark category codepoint

def isNonNewlineNonLetterNonNumber (codepoint : ℕ) : Bool :=
  !isNewline codepoint && !isLetter category codepoint && !isNumber category codepoint

def isNonSpaceNonLetterMarkNumber (codepoint : ℕ) : Bool :=
  !isWhitespace category codepoint && !isLetter category codepoint &&
    !isMark category codepoint && !isNumber category codepoint

/-- The category of a code point gives it the classes that the byte scanner has. -/
structure AgreesWithAscii (cp : ℕ) : Prop where
  letter : isLetter category cp = asciiLetter cp
  mark : isMark category cp = false
  number : isNumber category cp = asciiNumber cp
  whitespace : isWhitespace category cp = asciiWhitespace cp

/-- The table has the ASCII letters, digits and whitespace as such, and no ASCII mark. -/
def AsciiCategories : Prop := ∀ cp < 128, AgreesWithAscii category cp

end

/-! ## Contractions -/

/-- `std::tolower` of a byte. -/
def tolower (b : Byte) : Byte := if 'A'.toNat ≤ b.toNat ∧ b.toNat ≤ 'Z'.toNat then b + 32 else b

/-- `ascii_ci_matches`, for the text from the offset on. -/
def asciiCiMatches (text suffix : List Byte) : Bool :=
  suffix.length ≤ text.length && (suffix.zip text).all fun pair => tolower pair.2 = tolower pair.1

def suffixes : List (List Byte) :=
  [['s'], ['t'], ['r', 'e'], ['v', 'e'], ['m'], ['l', 'l'], ['d']].map (·.map byteOf)

/-! ## The scanners -/

/-- The whitespace run: its end and the last newline in it. -/
def whitespaceRun {α : Type} (whitespace newline : α → Bool) :
    List α → (runEnd : ℕ) → (lastNewline : Option ℕ) → ℕ × Option ℕ
  | [], runEnd, lastNewline => (runEnd, lastNewline)
  | c :: rest, runEnd, lastNewline =>
    if whitespace c then
      whitespaceRun whitespace newline rest (runEnd + 1)
        (if newline c then some runEnd else lastNewline)
    else (runEnd, lastNewline)

/-- The word at the front of a text that starts with whitespace: up to the last newline of the run,
else to the end of the text, else all but the last character of the run. -/
def whitespaceLength {α : Type} (whitespace newline : α → Bool) (text : List α) : ℕ :=
  match whitespaceRun whitespace newline text 0 none with
  | (_, some lastNewline) => lastNewline + 1
  | (runEnd, none) =>
    if runEnd = text.length then text.length
    else if 2 ≤ runEnd then runEnd - 1
    else runEnd

/-- The contraction at the front, in bytes. -/
def asciiContraction : List Byte → Option ℕ
  | [] => none
  | cp :: rest =>
    if cp = byteOf '\'' then
      (suffixes.find? (asciiCiMatches rest)).map fun suffix => 1 + suffix.length
    else none

/-- The length of the word that `for_each_ascii_qwen_word` emits next. -/
def asciiWordLength : List Byte → ℕ
  | [] => 0
  | cp :: rest =>
    let letter (b : Byte) := asciiLetter b.toNat
    let newline (b : Byte) := isNewline b.toNat
    let punct (b : Byte) :=
      !asciiWhitespace b.toNat && !asciiLetter b.toNat && !asciiNumber b.toNat
    match asciiContraction (cp :: rest) with
    | some length => length
    | none =>
      if letter cp ||
          (!newline cp && !letter cp && !asciiNumber cp.toNat && rest.head?.any letter) then
        let start := if letter cp then 0 else 1
        start + runLength letter ((cp :: rest).drop start)
      else if asciiNumber cp.toNat then 1
      else if (cp = byteOf ' ' && rest.head?.any punct) || punct cp then
        let start := if cp = byteOf ' ' then 1 else 0
        let punctEnd := start + runLength punct ((cp :: rest).drop start)
        punctEnd + runLength newline ((cp :: rest).drop punctEnd)
      else if asciiWhitespace cp.toNat then
        whitespaceLength (fun b : Byte => asciiWhitespace b.toNat) newline (cp :: rest)
      else 1

def forEachAsciiQwenWord (text : List Byte) : List (List Byte) := chunks asciiWordLength text

/-- The number of spans that start less than `limit` bytes from the first one. -/
def spansBefore : ℕ → List Codepoint → ℕ
  | _, [] => 0
  | limit, c :: spans => if 0 < limit then spansBefore (limit - c.bytes.length) spans + 1 else 0

/-- The contraction at the front, in spans.  The suffixes are compared with the bytes. -/
def unicodeContraction : List Codepoint → Option ℕ
  | [] => none
  | c :: rest =>
    if c.value = '\''.toNat then
      (suffixes.find? (asciiCiMatches (rest.flatMap Codepoint.bytes))).map fun suffix =>
        1 + spansBefore suffix.length rest
    else none

section

variable (category : ℕ → Category)

/-- The number of spans in the word that `for_each_unicode_qwen_word` emits next. -/
def unicodeWordLength : List Codepoint → ℕ
  | [] => 0
  | c :: rest =>
    let letterOrMark (c : Codepoint) := isLetterOrMark category c.value
    let newline (c : Codepoint) := isNewline c.value
    let punct (c : Codepoint) := isNonSpaceNonLetterMarkNumber category c.value
    match unicodeContraction (c :: rest) with
    | some length => length
    | none =>
      if letterOrMark c ||
          (isNonNewlineNonLetterNonNumber category c.value && rest.head?.any letterOrMark) then
        let start := if letterOrMark c then 0 else 1
        start + runLength letterOrMark ((c :: rest).drop start)
      else if isNumber category c.value then 1
      else if (c.value = ' '.toNat && rest.head?.any punct) || punct c then
        let start := if c.value = ' '.toNat then 1 else 0
        let punctEnd := start + runLength punct ((c :: rest).drop start)
        punctEnd + runLength newline ((c :: rest).drop punctEnd)
      else if isWhitespace category c.value then
        whitespaceLength (fun c : Codepoint => isWhitespace category c.value) newline (c :: rest)
      else 1

/-- `for_each_unicode_qwen_word`; text that is not UTF-8 throws. -/
def forEachUnicodeQwenWord (text : List Byte) : Option (List (List Byte)) :=
  (utf8Codepoints text).map fun spans =>
    (chunks (unicodeWordLength category) spans).map (·.flatMap Codepoint.bytes)

def forEachQwenWord (text : List Byte) : Option (List (List Byte)) :=
  if isAscii text then some (forEachAsciiQwenWord text) else forEachUnicodeQwenWord category text

/-! ## The pattern -/

/-- The small letter of an ASCII letter. -/
def asciiLower (cp : ℕ) : ℕ := if 'A'.toNat ≤ cp ∧ cp ≤ 'Z'.toNat then cp + 32 else cp

/-- A character that is `b` up to ASCII case. -/
def anyCase (b : Byte) (c : Codepoint) : Bool := asciiLower c.value = asciiLower b.toNat

open Pattern

/-- `(?i:'s|'t|'re|'ve|'m|'ll|'d)` -/
def contractionPattern : Pattern Codepoint :=
  alternatives (suffixes.map fun suffix =>
    literal ((fun c => c.value = '\''.toNat) :: suffix.map anyCase))

/-- `[^\r\n\p{L}\p{N}]?[\p{L}\p{M}]+` -/
def wordPattern : Pattern Codepoint :=
  seq
    (opt (one fun c => !isNewline c.value && !isLetter category c.value &&
      !isNumber category c.value))
    (plus (one fun c => isLetter category c.value || isMark category c.value))

/-- `\p{N}` -/
def numberPattern : Pattern Codepoint := one fun c => isNumber category c.value

/-- ` ?[^\s\p{L}\p{M}\p{N}]+[\r\n]*` -/
def punctuationPattern : Pattern Codepoint :=
  seq (opt (one fun c => c.value = ' '.toNat))
    (seq
      (plus (one fun c => !isWhitespace category c.value && !isLetter category c.value &&
        !isMark category c.value && !isNumber category c.value))
      (star (one fun c => isNewline c.value)))

/-- `\s*[\r\n]+` -/
def newlinePattern : Pattern Codepoint :=
  seq (star (one fun c => isWhitespace category c.value)) (plus (one fun c => isNewline c.value))

/-- `\s+(?!\S)` -/
def trailingPattern : Pattern Codepoint :=
  seq (plus (one fun c => isWhitespace category c.value))
    (notAhead (one fun c => !isWhitespace category c.value))

/-- `\s+` -/
def spacePattern : Pattern Codepoint := plus (one fun c => isWhitespace category c.value)

/-- The expression of the Qwen pre-tokenizer. -/
def qwenPattern : Pattern Codepoint :=
  alternatives
    [contractionPattern, wordPattern category, numberPattern category, punctuationPattern category,
      newlinePattern category, trailingPattern category, spacePattern category]

end

/-! ## Whitespace -/

section

variable {α : Type} {whitespace newline : α → Bool} {l : List α}

lemma whitespaceRun_fst (l : List α) (runEnd : ℕ) (lastNewline : Option ℕ) :
    (whitespaceRun whitespace newline l runEnd lastNewline).1 =
      runEnd + runLength whitespace l := by
  induction l generalizing runEnd lastNewline with
  | nil => rfl
  | cons c l ih =>
    rw [whitespaceRun]
    by_cases hc : whitespace c = true
    · rw [if_pos hc, ih, runLength_cons_of_pos hc]
      omega
    · rw [if_neg hc, runLength_cons_of_neg (by simpa using hc), Nat.add_zero]

/-- `i` is the last newline of the whitespace at the front. -/
structure LastNewline (whitespace newline : α → Bool) (l : List α) (i : ℕ) : Prop where
  lt : i < runLength whitespace l
  found : ∃ c, l[i]? = some c ∧ newline c = true
  last : ∀ j c, i < j → j < runLength whitespace l → l[j]? = some c → newline c = false

lemma whitespaceRun_snd (l : List α) (runEnd : ℕ) (lastNewline : Option ℕ) :
    (∃ i, LastNewline whitespace newline l i ∧
        (whitespaceRun whitespace newline l runEnd lastNewline).2 = some (runEnd + i)) ∨
      (∀ j c, j < runLength whitespace l → l[j]? = some c → newline c = false) ∧
        (whitespaceRun whitespace newline l runEnd lastNewline).2 = lastNewline := by
  induction l generalizing runEnd lastNewline with
  | nil => exact .inr ⟨fun j c hj => absurd hj (Nat.not_lt_zero _), rfl⟩
  | cons d l ih =>
    rw [whitespaceRun]
    by_cases hd : whitespace d = true
    · rw [if_pos hd]
      rcases ih (runEnd + 1) (if newline d then some runEnd else lastNewline) with
        ⟨i, hi, heq⟩ | ⟨hnone, heq⟩
      · -- A later newline of the run is the last one.
        refine .inl ⟨i + 1, ⟨?_, by simpa using hi.found, ?_⟩, by rw [heq]; congr 1; omega⟩
        · rw [runLength_cons_of_pos hd]
          exact Nat.succ_lt_succ hi.lt
        · intro j c hij hj hc
          rw [runLength_cons_of_pos hd] at hj
          obtain ⟨j, rfl⟩ := Nat.exists_eq_add_of_lt (Nat.lt_of_le_of_lt (Nat.zero_le _) hij)
          exact hi.last j c (by omega) (by omega) (by simpa using hc)
      · have hlater : ∀ j c, 0 < j → j < runLength whitespace (d :: l) →
            (d :: l)[j]? = some c → newline c = false := by
          intro j c hpos hj hc
          rw [runLength_cons_of_pos hd] at hj
          obtain ⟨j, rfl⟩ := Nat.exists_eq_add_of_lt hpos
          exact hnone j c (by omega) (by simpa using hc)
        by_cases hn : newline d = true
        · refine .inl ⟨0, ⟨?_, ⟨d, rfl, hn⟩, hlater⟩, by rw [heq, if_pos hn, Nat.add_zero]⟩
          rw [runLength_cons_of_pos hd]
          exact Nat.succ_pos _
        · refine .inr ⟨fun j c hj hc => ?_, by rw [heq, if_neg hn]⟩
          rcases Nat.eq_zero_or_pos j with rfl | hpos
          · rw [← Option.some.inj hc]
            simpa using hn
          · exact hlater j c hpos hj hc
    · rw [if_neg hd, runLength_cons_of_neg (by simpa using hd)]
      exact .inr ⟨fun j c hj => absurd hj (Nat.not_lt_zero _), rfl⟩

open Pattern

lemma firstMatch_plus_drop_of_not {n : ℕ} (h : ∀ c, l[n]? = some c → newline c = false) :
    (plus (one newline)).firstMatch (l.drop n) = none := by
  rw [firstMatch_plus_one, if_pos]
  rcases hd : l.drop n with _ | ⟨c, t⟩
  · rfl
  · refine runLength_cons_of_neg (h c ?_) t
    rw [← List.head?_drop, hd, List.head?_cons]

/-- `\s*[\r\n]+` goes back to the last newline of the run. -/
lemma firstMatch_newlines_of_last (hsub : ∀ c, newline c = true → whitespace c = true) {i : ℕ}
    (hi : LastNewline whitespace newline l i) :
    (seq (star (one whitespace)) (plus (one newline))).firstMatch l = some (i + 1) := by
  obtain ⟨c, hc, hnewline⟩ := hi.found
  have hafter : ∀ j d, i < j → j ≤ runLength whitespace l → l[j]? = some d →
      newline d = false := by
    intro j d hij hj hd
    rcases Nat.lt_or_eq_of_le hj with hlt | rfl
    · exact hi.last j d hij hlt hd
    · by_contra hn
      exact absurd (hsub d (by simpa using hn)) (by rw [getElem?_runLength hd]; simp)
  have hdrop : l.drop i = c :: l.drop (i + 1) := by
    obtain ⟨hlt, rfl⟩ := List.getElem?_eq_some_iff.mp hc
    exact List.drop_eq_getElem_cons hlt
  have hone : runLength newline (l.drop i) = 1 := by
    have hnext := firstMatch_plus_drop_of_not (l := l) (fun d => hafter (i + 1) d (by omega) hi.lt)
    rw [firstMatch_plus_one] at hnext
    rw [hdrop, runLength_cons_of_pos hnewline]
    split_ifs at hnext with hzero
    rw [hzero]
  rw [firstMatch_seq, lengths_star_one]
  refine findSome?_countdown (Nat.le_of_lt hi.lt) ?_ fun j hij hj => ?_
  · rw [firstMatch_plus_one, hone]
    rfl
  · rw [firstMatch_plus_drop_of_not fun d => hafter j d hij hj]
    rfl

/-- Without a newline in the run it does not match. -/
lemma firstMatch_newlines_of_none (hsub : ∀ c, newline c = true → whitespace c = true)
    (hnone : ∀ j c, j < runLength whitespace l → l[j]? = some c → newline c = false) :
    (seq (star (one whitespace)) (plus (one newline))).firstMatch l = none := by
  rw [firstMatch_seq, lengths_star_one]
  refine findSome?_countdown_eq_none fun j hj => ?_
  rw [firstMatch_plus_drop_of_not fun d hd => ?_]
  · rfl
  · rcases Nat.lt_or_eq_of_le hj with hlt | rfl
    · exact hnone j d hlt hd
    · by_contra hn
      exact absurd (hsub d (by simpa using hn)) (by rw [getElem?_runLength hd]; simp)

/-- The look-ahead of `\s+(?!\S)` accepts the end of the text and whitespace. -/
lemma firstMatch_lookahead (n : ℕ) :
    (notAhead (one fun c => !whitespace c)).firstMatch (l.drop n) =
      if l[n]?.all whitespace then some 0 else none := by
  rw [firstMatch_notAhead, ← List.head?_drop]
  rcases l.drop n with _ | ⟨c, t⟩
  · rfl
  · cases hc : whitespace c <;> simp [hc]

/-- `\s+(?!\S)` takes the whole run at the end of the text, and otherwise leaves one character of
it. -/
lemma firstMatch_trailing {c : α} (hc : whitespace c = true) :
    (seq (plus (one whitespace)) (notAhead (one fun c => !whitespace c))).firstMatch (c :: l) =
      if runLength whitespace (c :: l) = (c :: l).length then some (c :: l).length
      else if 2 ≤ runLength whitespace (c :: l) then some (runLength whitespace (c :: l) - 1)
      else none := by
  have hlook : ∀ n, ((notAhead (one fun c => !whitespace c)).firstMatch ((c :: l).drop (1 + n))).map
      (1 + n + ·) = if l[n]?.all whitespace then some (1 + n) else none := by
    intro n
    rw [firstMatch_lookahead, Nat.add_comm 1 n, List.getElem?_cons_succ]
    split_ifs <;> rfl
  rw [firstMatch_seq, lengths_plus_one_cons hc, List.findSome?_map, runLength_cons_of_pos hc,
    List.length_cons]
  simp only [Function.comp_def, hlook]
  have hle := runLength_le_length whitespace l
  by_cases hend : runLength whitespace l = l.length
  · rw [if_pos (by rw [hend])]
    refine findSome?_countdown (k := l.length) (Nat.le_of_eq hend.symm) ?_ fun j hj hj' => ?_
    · rw [List.getElem?_eq_none (Nat.le_refl _), if_pos (by rfl), Nat.add_comm]
    · omega
  · rw [if_neg (by omega)]
    have hnext : ∃ d, l[runLength whitespace l]? = some d ∧ whitespace d = false := by
      obtain ⟨d, hd⟩ : ∃ d, l[runLength whitespace l]? = some d :=
        ⟨_, List.getElem?_eq_getElem (by omega)⟩
      exact ⟨d, hd, getElem?_runLength hd⟩
    obtain ⟨d, hd, hspace⟩ := hnext
    by_cases htwo : 2 ≤ runLength whitespace l + 1
    · rw [if_pos htwo]
      obtain ⟨k, hk⟩ : ∃ k, runLength whitespace l = k + 1 := ⟨runLength whitespace l - 1, by omega⟩
      obtain ⟨e, he⟩ : ∃ e, l[k]? = some e := ⟨_, List.getElem?_eq_getElem (by omega)⟩
      refine findSome?_countdown (k := k) (by omega) ?_ fun j hj hj' => ?_
      · have hws := of_lt_runLength (p := whitespace) (by omega) he
        rw [he, if_pos (by simpa using hws)]
        congr 1
        omega
      · obtain rfl : j = runLength whitespace l := by omega
        rw [hd, if_neg (by simpa using hspace)]
    · rw [if_neg htwo]
      refine findSome?_countdown_eq_none fun j hj => ?_
      obtain rfl : j = runLength whitespace l := by omega
      rw [hd, if_neg (by simpa using hspace)]

/-- What the three whitespace alternatives read is the next word of the scanners. -/
lemma firstMatch_whitespace (hsub : ∀ c, newline c = true → whitespace c = true) {c : α}
    (hc : whitespace c = true) :
    [seq (star (one whitespace)) (plus (one newline)),
        seq (plus (one whitespace)) (notAhead (one fun c => !whitespace c)),
        plus (one whitespace)].findSome? (·.firstMatch (c :: l)) =
      some (whitespaceLength whitespace newline (c :: l)) := by
  have hfst : (whitespaceRun whitespace newline (c :: l) 0 none).1 = _ :=
    whitespaceRun_fst (c :: l) 0 none
  have hsnd : (∃ i, LastNewline whitespace newline (c :: l) i ∧ _ = _) ∨ _ :=
    whitespaceRun_snd (c :: l) 0 none
  rw [whitespaceLength]
  rcases hrun : whitespaceRun whitespace newline (c :: l) 0 none with ⟨runEnd, last⟩
  rw [hrun, Nat.zero_add] at hfst
  rw [hrun] at hsnd
  obtain rfl : runEnd = _ := hfst
  rcases hsnd with ⟨i, hi, heq⟩ | ⟨hnone, heq⟩
  · obtain rfl : last = some i := by simpa using heq
    rw [List.findSome?_cons, firstMatch_newlines_of_last hsub hi]
  · obtain rfl : last = none := heq
    have hpos : runLength whitespace (c :: l) ≠ 0 := by
      rw [runLength_cons_of_pos hc]
      exact Nat.succ_ne_zero _
    rw [List.findSome?_cons, firstMatch_newlines_of_none hsub hnone, List.findSome?_cons,
      firstMatch_trailing hc, List.findSome?_cons, firstMatch_plus_one, if_neg hpos]
    dsimp only
    split_ifs <;> rfl

end

/-! ## Contractions -/

section

variable {b s : Byte} {text suffix : List Byte} {c : Codepoint} {rest : List Codepoint}

lemma toNat_tolower (b : Byte) : (tolower b).toNat = asciiLower b.toNat := by
  unfold tolower asciiLower
  split_ifs with h
  · have hupper : b.toNat ≤ 90 := h.2
    exact Nat.mod_eq_of_lt (by simp; omega)
  · rfl

lemma asciiLower_lt {cp : ℕ} (h : cp < 128) : asciiLower cp < 128 := by
  unfold asciiLower
  split_ifs with hupper
  · have : cp ≤ 90 := hupper.2
    omega
  · exact h

lemma asciiLower_of_le {cp : ℕ} (h : 128 ≤ cp) : asciiLower cp = cp := by
  refine if_neg fun hupper => ?_
  have : cp ≤ 90 := hupper.2
  omega

lemma tolower_eq_iff : tolower b = tolower s ↔ asciiLower b.toNat = asciiLower s.toNat := by
  rw [← toNat_tolower, ← toNat_tolower, BitVec.toNat_inj]

lemma asciiCiMatches_cons : asciiCiMatches (b :: text) (s :: suffix) =
    (decide (tolower b = tolower s) && asciiCiMatches text suffix) := by
  simp only [asciiCiMatches, List.length_cons, Nat.add_le_add_iff_right, List.zip_cons_cons,
    List.all_cons]
  rw [← Bool.and_assoc, ← Bool.and_assoc, Bool.and_comm (decide (suffix.length ≤ text.length))]

open Pattern

/-- Comparing bytes with an ASCII suffix is comparing characters. -/
lemma asciiCiMatches_flatMap (hrest : ∀ c ∈ rest, c.WellFormed)
    (hsuffix : ∀ s ∈ suffix, s.toNat < 128) :
    asciiCiMatches (rest.flatMap Codepoint.bytes) suffix =
      startsWith (suffix.map anyCase) rest := by
  induction suffix generalizing rest with
  | nil => simp [asciiCiMatches, startsWith]
  | cons s suffix ih =>
    obtain ⟨hs, hsuffix⟩ := List.forall_mem_cons.mp hsuffix
    cases rest with
    | nil => rfl
    | cons c rest =>
      obtain ⟨hc, hrest⟩ := List.forall_mem_cons.mp hrest
      rw [List.flatMap_cons, List.map_cons, startsWith]
      rcases hc with ⟨hlt, hbytes⟩ | ⟨hge, b, bs, hbytes, hb⟩
      · have hvalue : (BitVec.ofNat 8 c.value).toNat = c.value := by
          rw [BitVec.toNat_ofNat]
          exact Nat.mod_eq_of_lt (by omega)
        rw [hbytes, List.singleton_append, asciiCiMatches_cons, ih hrest hsuffix]
        simp only [tolower_eq_iff, hvalue, anyCase]
      · have hlower := asciiLower_lt hs
        have hbyte : ¬tolower b = tolower s := by
          rw [tolower_eq_iff, asciiLower_of_le hb]
          omega
        have hvalue : ¬asciiLower c.value = asciiLower s.toNat := by
          rw [asciiLower_of_le hge]
          omega
        rw [hbytes, List.cons_append, asciiCiMatches_cons, anyCase, decide_eq_false hbyte,
          decide_eq_false hvalue, Bool.false_and, Bool.false_and]

/-- A suffix that matches is spelled by as many spans as it has bytes. -/
lemma spansBefore_of_startsWith (hrest : ∀ c ∈ rest, c.WellFormed)
    (hsuffix : ∀ s ∈ suffix, s.toNat < 128)
    (h : startsWith (suffix.map anyCase) rest = true) :
    spansBefore suffix.length rest = suffix.length := by
  induction suffix generalizing rest with
  | nil => cases rest <;> rfl
  | cons s suffix ih =>
    obtain ⟨hs, hsuffix⟩ := List.forall_mem_cons.mp hsuffix
    match rest with
    | [] => exact absurd h (by simp [startsWith])
    | c :: rest =>
      obtain ⟨hc, hrest⟩ := List.forall_mem_cons.mp hrest
      rw [List.map_cons, startsWith, Bool.and_eq_true, anyCase, decide_eq_true_eq] at h
      rcases hc with ⟨-, hbytes⟩ | ⟨hge, -⟩
      · rw [List.length_cons, spansBefore, if_pos (Nat.succ_pos _), hbytes,
          List.length_singleton, Nat.add_sub_cancel, ih hrest hsuffix h.2]
      · have hlower := asciiLower_lt hs
        rw [asciiLower_of_le hge] at h
        omega

lemma suffixes_ascii : ∀ suffix ∈ suffixes, ∀ s ∈ suffix, s.toNat < 128 := by
  decide

lemma findSome?_eq_map_find? {α β : Type} {g : α → Option β} {p : α → Bool} {f : α → β}
    {as : List α} (h : ∀ a ∈ as, g a = if p a then some (f a) else none) :
    as.findSome? g = (as.find? p).map f := by
  induction as with
  | nil => rfl
  | cons a as ih =>
    obtain ⟨ha, has⟩ := List.forall_mem_cons.mp h
    rw [List.findSome?_cons, ha, List.find?_cons, ih has]
    cases p a <;> rfl

/-- The first alternative is the contraction that the scanner looks for. -/
lemma firstMatch_contractionPattern {l : List Codepoint} (hl : ∀ c ∈ l, c.WellFormed) :
    contractionPattern.firstMatch l = unicodeContraction l := by
  rw [contractionPattern, firstMatch_alternatives, List.findSome?_map]
  match l with
  | [] => rfl
  | c :: rest =>
    obtain ⟨-, hrest⟩ := List.forall_mem_cons.mp hl
    rw [unicodeContraction]
    by_cases hquote : c.value = '\''.toNat
    · rw [if_pos hquote]
      refine findSome?_eq_map_find? fun suffix hsuffix => ?_
      have hascii := suffixes_ascii suffix hsuffix
      rw [Function.comp_apply, firstMatch_literal, startsWith, decide_eq_true hquote,
        Bool.true_and, asciiCiMatches_flatMap hrest hascii, List.length_cons, List.length_map]
      by_cases hstart : startsWith (suffix.map anyCase) rest = true
      · rw [if_pos hstart, if_pos hstart, spansBefore_of_startsWith hrest hascii hstart,
          Nat.add_comm]
      · rw [if_neg hstart, if_neg hstart]
    · rw [if_neg hquote]
      refine List.findSome?_eq_none_iff.mpr fun suffix _ => ?_
      rw [Function.comp_apply, firstMatch_literal, startsWith, decide_eq_false hquote]
      rfl

end

/-! ## Words and punctuation -/

section

open Pattern

variable {α : Type} {p w space newline : α → Bool} {l : List α}

/-- A class behind an optional character, as the scanner reads it: the character is looked at only
if it is not of the class itself. -/
lemma firstMatch_opt_plus (c : α) :
    (seq (opt (one p)) (plus (one w))).firstMatch (c :: l) =
      if w c || (p c && l.head?.any w) then
        let start := if w c then 0 else 1
        some (start + runLength w ((c :: l).drop start))
      else none := by
  rw [firstMatch_seq_opt_one_cons, firstMatch_plus_one, firstMatch_plus_one]
  dsimp only
  by_cases hw : w c = true
  · rw [hw, Bool.true_or, if_pos rfl, if_pos rfl, List.drop_zero, Nat.zero_add,
      runLength_cons_of_pos hw, if_neg (Nat.succ_ne_zero _)]
    by_cases hp : p c = true
    · rw [if_pos hp]
      by_cases hzero : runLength w l = 0
      · rw [if_pos hzero]
        rfl
      · rw [if_neg hzero, Option.map_some, Option.some_or, Nat.add_comm]
    · rw [if_neg hp]
  · have hw' : w c = false := by simpa using hw
    rw [runLength_cons_of_neg hw', if_pos rfl, if_neg hw, List.drop_succ_cons, List.drop_zero, hw',
      Bool.false_or, Option.or_none]
    by_cases hp : p c = true
    · rw [if_pos hp, hp]
      by_cases hzero : runLength w l = 0
      · rw [if_pos hzero, runLength_eq_zero_iff.mp hzero]
        rfl
      · rw [if_neg hzero, if_pos (by simpa using mt runLength_eq_zero_iff.mpr hzero),
          Option.map_some]
    · rw [if_neg hp, if_neg (by simp [hp])]

/-- A class behind an optional space, with the newlines that follow. -/
lemma firstMatch_opt_plus_star (c : α) (hspace : space c = true → w c = false) :
    (seq (opt (one space)) (seq (plus (one w)) (star (one newline)))).firstMatch (c :: l) =
      if (space c && l.head?.any w) || w c then
        let start := if space c then 1 else 0
        let classEnd := start + runLength w ((c :: l).drop start)
        some (classEnd + runLength newline ((c :: l).drop classEnd))
      else none := by
  have hrest : ∀ t, (seq (plus (one w)) (star (one newline))).firstMatch t =
      if runLength w t = 0 then none
      else some (runLength w t + runLength newline (t.drop (runLength w t))) := by
    intro t
    rw [firstMatch_seq_of_isSome (f := runLength newline) fun _ => firstMatch_star_one,
      firstMatch_plus_one]
    split_ifs <;> rfl
  rw [firstMatch_seq_opt_one_cons, hrest, hrest]
  dsimp only
  by_cases hs : space c = true
  · have hw := hspace hs
    rw [if_pos hs, if_pos hs, hs, runLength_cons_of_neg hw, if_pos rfl, Option.or_none, hw,
      List.drop_succ_cons, List.drop_zero]
    by_cases hzero : runLength w l = 0
    · rw [if_pos hzero, runLength_eq_zero_iff.mp hzero]
      rfl
    · rw [if_neg hzero, if_pos (by simpa using mt runLength_eq_zero_iff.mpr hzero),
        Option.map_some, Nat.add_comm 1 (runLength w l), List.drop_succ_cons]
      congr 1
      omega
  · rw [if_neg hs, if_neg hs, List.drop_zero, Nat.zero_add]
    by_cases hw : w c = true
    · rw [if_neg (by rw [runLength_cons_of_pos hw]; omega), if_pos (by simp [hw])]
    · have hw' : w c = false := by simpa using hw
      rw [if_pos (runLength_cons_of_neg hw' l), if_neg (by simp [hs, hw'])]

end

/-! ## The next word -/

section

open Pattern

variable {category : ℕ → Category}

lemma whitespace_of_isNewline {cp : ℕ} (h : isNewline cp = true) :
    isWhitespace category cp = true := by
  rw [isNewline, Bool.or_eq_true, decide_eq_true_eq, decide_eq_true_eq] at h
  rw [isWhitespace, if_pos]
  rcases h with rfl | rfl <;> decide

lemma firstMatch_wordPattern (c : Codepoint) (rest : List Codepoint) :
    (wordPattern category).firstMatch (c :: rest) =
      if isLetterOrMark category c.value ||
          (isNonNewlineNonLetterNonNumber category c.value &&
            rest.head?.any fun c => isLetterOrMark category c.value) then
        let start := if isLetterOrMark category c.value then 0 else 1
        some (start + runLength (fun c => isLetterOrMark category c.value) ((c :: rest).drop start))
      else none :=
  firstMatch_opt_plus c

lemma firstMatch_punctuationPattern (c : Codepoint) (rest : List Codepoint) :
    (punctuationPattern category).firstMatch (c :: rest) =
      if (c.value = ' '.toNat &&
            rest.head?.any fun c => isNonSpaceNonLetterMarkNumber category c.value) ||
          isNonSpaceNonLetterMarkNumber category c.value then
        let start := if c.value = ' '.toNat then 1 else 0
        let punctEnd :=
          start + runLength (fun c => isNonSpaceNonLetterMarkNumber category c.value)
            ((c :: rest).drop start)
        some (punctEnd + runLength (fun c => isNewline c.value) ((c :: rest).drop punctEnd))
      else none := by
  rw [punctuationPattern, firstMatch_opt_plus_star]
  · simp only [decide_eq_true_eq]
    rfl
  · intro hc
    rw [of_decide_eq_true hc]
    rfl

/-- The first match of the pattern at the front of a text is the next word of the scanner. -/
lemma firstMatch_qwenPattern {c : Codepoint} {rest : List Codepoint}
    (hl : ∀ d ∈ c :: rest, d.WellFormed) :
    (qwenPattern category).firstMatch (c :: rest) =
      some (unicodeWordLength category (c :: rest)) := by
  rw [qwenPattern, firstMatch_alternatives, List.findSome?_cons,
    firstMatch_contractionPattern hl, unicodeWordLength]
  rcases unicodeContraction (c :: rest) with _ | length
  swap
  · rfl
  rw [List.findSome?_cons, firstMatch_wordPattern, List.findSome?_cons, numberPattern,
    firstMatch_one_cons, List.findSome?_cons, firstMatch_punctuationPattern]
  -- The conditions of the scanner are those under which the alternatives match, in their order.
  by_cases hword : (isLetterOrMark category c.value ||
      (isNonNewlineNonLetterNonNumber category c.value &&
        rest.head?.any fun c => isLetterOrMark category c.value)) = true
  · rw [if_pos hword, if_pos hword]
  rw [if_neg hword, if_neg hword]
  by_cases hnumber : isNumber category c.value = true
  · rw [if_pos hnumber, if_pos hnumber]
  rw [if_neg hnumber, if_neg hnumber]
  by_cases hpunct : ((c.value = ' '.toNat &&
        rest.head?.any fun c => isNonSpaceNonLetterMarkNumber category c.value) ||
      isNonSpaceNonLetterMarkNumber category c.value) = true
  · rw [if_pos hpunct, if_pos hpunct]
  rw [if_neg hpunct, if_neg hpunct]
  have hspace : isWhitespace category c.value = true := by
    simp only [isLetterOrMark, isNonSpaceNonLetterMarkNumber] at hword hpunct
    grind
  rw [if_pos hspace]
  exact firstMatch_whitespace (fun c => whitespace_of_isNewline) hspace

end

/-! ## Progress -/

section

variable {α : Type} {p whitespace newline : α → Bool} {l : List α} {c : α}

lemma runLength_pos (h : p c = true) : 0 < runLength p (c :: l) := by
  rw [runLength_cons_of_pos h]
  exact Nat.succ_pos _

lemma whitespaceLength_pos (h : whitespace c = true) :
    0 < whitespaceLength whitespace newline (c :: l) := by
  have hfst : (whitespaceRun whitespace newline (c :: l) 0 none).1 = _ :=
    whitespaceRun_fst (c :: l) 0 none
  have hpos : 0 < runLength whitespace (c :: l) := runLength_pos h
  rw [whitespaceLength]
  rcases hrun : whitespaceRun whitespace newline (c :: l) 0 none with ⟨runEnd, _ | lastNewline⟩
  · rw [hrun] at hfst
    dsimp only at hfst ⊢
    split_ifs <;> simp <;> omega
  · exact Nat.succ_pos _

end

lemma unicodeContraction_pos {l : List Codepoint} {length : ℕ}
    (h : unicodeContraction l = some length) : 0 < length := by
  match l with
  | [] => exact absurd h (by simp [unicodeContraction])
  | c :: rest =>
    obtain ⟨-, hsome⟩ := Option.ite_none_right_eq_some.mp h
    obtain ⟨suffix, -, rfl⟩ := Option.map_eq_some_iff.mp hsome
    omega

lemma unicodeWordLength_pos {category : ℕ → Category} (l : List Codepoint) (hl : l ≠ []) :
    0 < unicodeWordLength category l := by
  match l with
  | c :: rest =>
    rw [unicodeWordLength]
    rcases hcontraction : unicodeContraction (c :: rest) with _ | length
    · dsimp only
      split_ifs with hword hstart hnumber hpunct hstart hspace
      · exact Nat.add_pos_right _ (runLength_pos hstart)
      · omega
      · omega
      · omega
      · rw [decide_eq_false hstart] at hpunct
        have hrun := runLength_pos (l := rest)
          (p := fun c : Codepoint => isNonSpaceNonLetterMarkNumber category c.value) hpunct
        exact Nat.add_pos_left (Nat.add_pos_right _ hrun) _
      · exact whitespaceLength_pos hspace
      · omega
    · exact unicodeContraction_pos hcontraction

/-! ## The two scanners -/

/-- A byte read as a code point. -/
def byteCodepointSpan (b : Byte) : Codepoint := ⟨b.toNat, [b]⟩

section

variable {α β : Type} {f : α → β} {l : List α}

lemma runLength_map_congr {p : β → Bool} {q : α → Bool} (h : ∀ a ∈ l, p (f a) = q a) :
    runLength p (l.map f) = runLength q l := by
  induction l with
  | nil => rfl
  | cons a l ih =>
    obtain ⟨ha, hl⟩ := List.forall_mem_cons.mp h
    rw [List.map_cons]
    by_cases hq : q a = true
    · rw [runLength_cons_of_pos hq, runLength_cons_of_pos (ha.trans hq), ih hl]
    · have hq' : q a = false := by simpa using hq
      rw [runLength_cons_of_neg hq', runLength_cons_of_neg (ha.trans hq')]

lemma whitespaceRun_map_congr {ws nl : β → Bool} {ws' nl' : α → Bool}
    (hws : ∀ a ∈ l, ws (f a) = ws' a) (hnl : ∀ a ∈ l, nl (f a) = nl' a) (runEnd : ℕ)
    (lastNewline : Option ℕ) :
    whitespaceRun ws nl (l.map f) runEnd lastNewline =
      whitespaceRun ws' nl' l runEnd lastNewline := by
  induction l generalizing runEnd lastNewline with
  | nil => rfl
  | cons a l ih =>
    obtain ⟨hwsa, hws⟩ := List.forall_mem_cons.mp hws
    obtain ⟨hnla, hnl⟩ := List.forall_mem_cons.mp hnl
    rw [List.map_cons, whitespaceRun, whitespaceRun, hwsa, hnla, ih hws hnl]

lemma any_head?_map_congr {p : β → Bool} {q : α → Bool} (h : ∀ a ∈ l, p (f a) = q a) :
    (l.map f).head?.any p = l.head?.any q := by
  match l with
  | [] => rfl
  | a :: l => exact h a (List.mem_cons_self)

end

lemma spansBefore_bytes (limit : ℕ) (l : List Byte) :
    spansBefore limit (l.map byteCodepointSpan) = min limit l.length := by
  induction l generalizing limit with
  | nil => simp [spansBefore]
  | cons b l ih =>
    rw [List.map_cons, spansBefore]
    by_cases hlimit : 0 < limit
    · rw [if_pos hlimit]
      show spansBefore (limit - 1) _ + 1 = _
      rw [ih, List.length_cons]
      omega
    · rw [if_neg hlimit]
      omega

lemma flatMap_byteCodepointSpan (l : List Byte) :
    (l.map byteCodepointSpan).flatMap Codepoint.bytes = l := by
  induction l with
  | nil => rfl
  | cons b l ih =>
    rw [List.map_cons, List.flatMap_cons, ih]
    rfl

lemma unicodeContraction_bytes (l : List Byte) :
    unicodeContraction (l.map byteCodepointSpan) = asciiContraction l := by
  match l with
  | [] => rfl
  | b :: rest =>
    have hquote : (byteCodepointSpan b).value = '\''.toNat ↔ b = byteOf '\'' := by
      rw [← BitVec.toNat_inj]
      rfl
    rw [List.map_cons, unicodeContraction, asciiContraction, flatMap_byteCodepointSpan]
    simp only [hquote]
    refine ite_congr rfl (fun _ => ?_) fun _ => rfl
    rcases hfind : suffixes.find? (asciiCiMatches rest) with _ | suffix
    · rfl
    · have hmatch := List.find?_some hfind
      simp only [asciiCiMatches, Bool.and_eq_true, decide_eq_true_eq] at hmatch
      rw [Option.map_some, Option.map_some, spansBefore_bytes, Nat.min_eq_left hmatch.1]

/-- Where the classes agree, so do the scanners. -/
lemma unicodeWordLength_bytes {category : ℕ → Category} {l : List Byte}
    (h : ∀ b ∈ l, AgreesWithAscii category b.toNat) :
    unicodeWordLength category (l.map byteCodepointSpan) = asciiWordLength l := by
  match l with
  | [] => rfl
  | cp :: rest =>
    have hletter : ∀ b ∈ cp :: rest, isLetterOrMark category (byteCodepointSpan b).value =
        asciiLetter b.toNat := by
      intro b hb
      show (isLetter category b.toNat || isMark category b.toNat) = _
      rw [(h b hb).letter, (h b hb).mark, Bool.or_false]
    have hpunct : ∀ b ∈ cp :: rest,
        isNonSpaceNonLetterMarkNumber category (byteCodepointSpan b).value =
          (!asciiWhitespace b.toNat && !asciiLetter b.toNat && !asciiNumber b.toNat) := by
      intro b hb
      show (!isWhitespace category b.toNat && !isLetter category b.toNat &&
        !isMark category b.toNat && !isNumber category b.toNat) = _
      rw [(h b hb).whitespace, (h b hb).letter, (h b hb).mark, (h b hb).number, Bool.not_false,
        Bool.and_true]
    have hcp := h cp List.mem_cons_self
    have hfront : isNonNewlineNonLetterNonNumber category (byteCodepointSpan cp).value =
        (!isNewline cp.toNat && !asciiLetter cp.toNat && !asciiNumber cp.toNat) := by
      show (!isNewline cp.toNat && !isLetter category cp.toNat && !isNumber category cp.toNat) = _
      rw [hcp.letter, hcp.number]
    have hnumber : isNumber category (byteCodepointSpan cp).value = _ := hcp.number
    have hblank : isWhitespace category (byteCodepointSpan cp).value = _ := hcp.whitespace
    have hspace : (byteCodepointSpan cp).value = ' '.toNat ↔ cp = byteOf ' ' := by
      rw [← BitVec.toNat_inj]
      rfl
    -- A run of spans is a run of bytes, from any place on.
    have hruns : ∀ (p : Codepoint → Bool) (q : Byte → Bool),
        (∀ b ∈ cp :: rest, p (byteCodepointSpan b) = q b) → ∀ n,
        runLength p (((cp :: rest).map byteCodepointSpan).drop n) =
          runLength q ((cp :: rest).drop n) := by
      intro p q hpq n
      rw [← List.map_drop]
      exact runLength_map_congr fun b hb => hpq b (List.mem_of_mem_drop hb)
    have hnext : ∀ (p : Codepoint → Bool) (q : Byte → Bool),
        (∀ b ∈ cp :: rest, p (byteCodepointSpan b) = q b) →
        (rest.map byteCodepointSpan).head?.any p = rest.head?.any q := fun p q hpq =>
      any_head?_map_congr fun b hb => hpq b (List.mem_cons_of_mem _ hb)
    have hrun : ∀ runEnd lastNewline,
        whitespaceRun (fun c : Codepoint => isWhitespace category c.value)
            (fun c => isNewline c.value) ((cp :: rest).map byteCodepointSpan) runEnd lastNewline =
          whitespaceRun (fun b : Byte => asciiWhitespace b.toNat) (fun b => isNewline b.toNat)
            (cp :: rest) runEnd lastNewline :=
      whitespaceRun_map_congr (fun b hb => (h b hb).whitespace) fun b _ => rfl
    rw [List.map_cons, unicodeWordLength, asciiWordLength]
    rw [← List.map_cons, unicodeContraction_bytes]
    rcases asciiContraction (cp :: rest) with _ | length
    · simp only [hletter cp List.mem_cons_self, hpunct cp List.mem_cons_self, hfront, hspace,
        hnumber, hblank,
        hnext (fun c => isLetterOrMark category c.value) _ hletter,
        hnext (fun c => isNonSpaceNonLetterMarkNumber category c.value) _ hpunct,
        hruns (fun c => isLetterOrMark category c.value) _ hletter,
        hruns (fun c => isNonSpaceNonLetterMarkNumber category c.value) _ hpunct,
        hruns (fun c => isNewline c.value) _ fun _ _ => rfl, whitespaceLength, hrun,
        List.length_map]
      rfl
    · rfl

/-- A table with nothing but the ASCII classes. -/
def asciiCategory (cp : ℕ) : Category :=
  if asciiLetter cp then .ll else if asciiNumber cp then .nd else .so

lemma agreesWithAscii_asciiCategory (cp : ℕ) : AgreesWithAscii asciiCategory cp := by
  have hdisjoint : asciiLetter cp = true → asciiNumber cp = false := by
    simp only [asciiLetter, asciiNumber, Bool.or_eq_true, Bool.and_eq_true, decide_eq_true_eq,
      Bool.and_eq_false_iff, decide_eq_false_iff_not]
    rintro (⟨hlow, -⟩ | ⟨hlow, -⟩)
    · exact .inr (Nat.not_le_of_lt (Nat.lt_of_lt_of_le (by decide) hlow))
    · exact .inr (Nat.not_le_of_lt (Nat.lt_of_lt_of_le (by decide) hlow))
  have hcases : asciiCategory cp = .ll ∧ asciiLetter cp = true ∧ asciiNumber cp = false ∨
      asciiCategory cp = .nd ∧ asciiLetter cp = false ∧ asciiNumber cp = true ∨
      asciiCategory cp = .so ∧ asciiLetter cp = false ∧ asciiNumber cp = false := by
    unfold asciiCategory
    grind
  rcases hcases with ⟨hcategory, hletter, hnumber⟩ | ⟨hcategory, hletter, hnumber⟩ |
    ⟨hcategory, hletter, hnumber⟩
  all_goals
    constructor
    · simp [isLetter, hcategory, hletter]
    · simp [isMark, hcategory]
    · simp [isNumber, hcategory, hnumber]
    · simp [isWhitespace, hcategory]
      rfl

lemma asciiWordLength_pos (l : List Byte) (hl : l ≠ []) : 0 < asciiWordLength l := by
  have hbytes : unicodeWordLength asciiCategory (l.map byteCodepointSpan) = asciiWordLength l :=
    unicodeWordLength_bytes fun b _ => agreesWithAscii_asciiCategory b.toNat
  rw [← hbytes]
  exact unicodeWordLength_pos _ (by simpa using hl)

/-! ## The words are the matches -/

variable {category : ℕ → Category} {text : List Byte} {spans : List Codepoint}

/-- The matches of the pattern are the words that the scanner over code points cuts. -/
lemma findAll_qwenPattern (hspans : ∀ c ∈ spans, c.WellFormed) :
    (qwenPattern category).findAll spans = chunks (unicodeWordLength category) spans := by
  refine Pattern.findAll_eq_chunks unicodeWordLength_pos rfl fun t ht hne => ?_
  match t with
  | c :: rest => exact firstMatch_qwenPattern fun d hd => hspans d (ht.subset hd)

lemma forEachUnicodeQwenWord_ascii (h : AsciiCategories category) (htext : isAscii text = true) :
    forEachUnicodeQwenWord category text = some (forEachAsciiQwenWord text) := by
  have hbytes : ∀ t, t <:+ text →
      unicodeWordLength category (t.map byteCodepointSpan) = asciiWordLength t := by
    intro t ht
    refine unicodeWordLength_bytes fun b hb => h _ ?_
    exact of_decide_eq_true (List.all_eq_true.mp htext b (ht.subset hb))
  have hspell : (List.flatMap Codepoint.bytes) ∘ (List.map byteCodepointSpan) = id :=
    funext flatMap_byteCodepointSpan
  have hspans : utf8Codepoints text = some (text.map byteCodepointSpan) :=
    utf8Codepoints_ascii htext
  rw [forEachUnicodeQwenWord, hspans, Option.map_some,
    chunks_map asciiWordLength_pos unicodeWordLength_pos _ hbytes, List.map_map, hspell,
    List.map_id, forEachAsciiQwenWord]

/-- **The words of a text.**  On the bytes of any characters, the scanners emit the successive
leftmost matches of the pattern, and where both scanners apply, they agree. -/
theorem qwen_words (h : AsciiCategories category) (chars : List Char) :
    forEachQwenWord category (chars.flatMap charBytes) =
        some (((qwenPattern category).findAll (chars.map codepointOf)).map
          (·.flatMap Codepoint.bytes)) ∧
      (isAscii (chars.flatMap charBytes) = true →
        forEachUnicodeQwenWord category (chars.flatMap charBytes) =
          some (forEachAsciiQwenWord (chars.flatMap charBytes))) := by
  refine ⟨?_, forEachUnicodeQwenWord_ascii h⟩
  have hspans := utf8Codepoints_flatMap_charBytes chars
  have hunicode : forEachUnicodeQwenWord category (chars.flatMap charBytes) =
      some (((qwenPattern category).findAll (chars.map codepointOf)).map
        (·.flatMap Codepoint.bytes)) := by
    rw [forEachUnicodeQwenWord, hspans, Option.map_some,
      findAll_qwenPattern (wellFormed_of_utf8Codepoints hspans)]
  rw [forEachQwenWord]
  split_ifs with hascii
  · rw [← forEachUnicodeQwenWord_ascii h hascii, hunicode]
  · exact hunicode

theorem qwen_words_contraction :
    AsciiCategories asciiCategory ∧
      forEachQwenWord asciiCategory (['I', '\'', 'm', ' ', '4', '2', '!', '\n'].flatMap charBytes) =
        some (((qwenPattern asciiCategory).findAll
          (['I', '\'', 'm', ' ', '4', '2', '!', '\n'].map codepointOf)).map
            (·.flatMap Codepoint.bytes)) :=
  ⟨fun cp _ => agreesWithAscii_asciiCategory cp,
    (qwen_words (fun cp _ => agreesWithAscii_asciiCategory cp)
      ['I', '\'', 'm', ' ', '4', '2', '!', '\n']).1⟩

end NInfer.Frontend
