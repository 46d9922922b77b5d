import ColumnQuery.Json.Tree
import Mathlib.Data.List.TakeWhile

/-! # Texts of documents

The text of a document is read back as the document. Only a control character without a short escape
is not read as the unit that was written: it is written by its code and comes back as that code,
which stands for the same text. -/

namespace ColumnQuery.Json

/-! ## What is read back -/

/-- Whether a character is written by its code in a string. -/
def isCoded (c : Char) : Bool :=
  c.toNat < 32 && c ∉ ['\x08', '\x0c', '\n', '\r', '\t']

def StringUnit.reread : StringUnit → StringUnit
  | .char c => if isCoded c then .code c.toNat else .char c
  | .code n => .code n

def rereadUnits (units : List StringUnit) : List StringUnit :=
  units.map StringUnit.reread

mutual

/-- The document that a written document is read as. -/
def reread : Json → Json
  | .string units => .string (rereadUnits units)
  | .array items => .array (rereadItems items)
  | .object entries => .object (rereadEntries entries)
  | j => j

def rereadItems : List Json → List Json
  | [] => []
  | j :: rest => reread j :: rereadItems rest

def rereadEntries : List (List StringUnit × Json) → List (List StringUnit × Json)
  | [] => []
  | (key, j) :: rest => (rereadUnits key, reread j) :: rereadEntries rest

end

theorem rereadEntries_eq (entries : List (List StringUnit × Json)) :
    rereadEntries entries = entries.map fun e => (rereadUnits e.1, reread e.2) := by
  induction entries with
  | nil => rfl
  | cons e entries ih => rw [rereadEntries, List.map_cons, ih]

/-! ## Strings -/

theorem codeUnit?_controlDigits {n : Nat} (h : n < 32) :
    codeUnit? '0' '0' (if n < 16 then '0' else '1') (Nat.digitChar (n % 16)) = some n := by
  have hall : ∀ n < 32,
      codeUnit? '0' '0' (if n < 16 then '0' else '1') (Nat.digitChar (n % 16)) = some n := by
    decide
  exact hall n h

/-- A written character is read back before what follows it. -/
theorem stringUnits?_escapeChar (c : Char) (cs : List Char) :
    stringUnits? (escapeChar c ++ cs) =
      (stringUnits? cs).map fun read => ((StringUnit.char c).reread :: read.1, read.2) := by
  have hread : ∀ u : StringUnit,
      (stringUnits? cs >>= fun read => some (u :: read.1, read.2)) =
        (stringUnits? cs).map fun read => (u :: read.1, read.2) := by
    intro u
    cases stringUnits? cs <;> rfl
  by_cases hquote : c = '"'
  · subst c
    exact hread _
  by_cases hslash : c = '\\'
  · subst c
    exact hread _
  by_cases hshort : c ∈ ['\x08', '\x0c', '\n', '\r', '\t']
  · have hcases : c = '\x08' ∨ c = '\x0c' ∨ c = '\n' ∨ c = '\r' ∨ c = '\t' := by
      simpa using hshort
    rcases hcases with rfl | rfl | rfl | rfl | rfl <;> exact hread _
  obtain ⟨hb, hf, hn, hr, ht⟩ : c ≠ '\x08' ∧ c ≠ '\x0c' ∧ c ≠ '\n' ∧ c ≠ '\r' ∧ c ≠ '\t' := by
    simpa using hshort
  have hreread : (StringUnit.char c).reread =
      if c.toNat < 32 then .code c.toNat else .char c := by
    simp [StringUnit.reread, isCoded, hb, hf, hn, hr, ht]
  simp only [escapeChar, hquote, hslash, hb, hf, hn, hr, ht, if_false, hreread]
  by_cases hcode : c.toNat < 32
  · simp only [hcode, if_true, controlDigits, List.cons_append, List.nil_append]
    rw [stringUnits?, codeUnit?_controlDigits hcode]
    exact hread _
  · simp only [hcode, if_false, List.cons_append, List.nil_append]
    rw [stringUnits?.eq_def]
    simp [hslash, hcode]
    exact hread _

/-- A string of characters is read back up to its closing quote. -/
theorem stringUnits?_written (cs rest : List Char) :
    stringUnits? ((cs.map StringUnit.char).flatMap StringUnit.written ++ '"' :: rest) =
      some (rereadUnits (cs.map .char), rest) := by
  induction cs with
  | nil => rfl
  | cons c cs ih =>
      rw [List.map_cons, List.flatMap_cons, List.append_assoc, StringUnit.written,
        stringUnits?_escapeChar, ih]
      rfl

/-- What is read back of a text stands for the text. -/
theorem textOf?_reread (s : String) : textOf? (rereadUnits (unitsOf s)) = some s := by
  have hcode : ∀ (n : Nat) (units : List StringUnit), n < 32 →
      charsOf? (.code n :: units) = (charsOf? units).map (Char.ofNat n :: ·) := by
    intro n units hn
    have hhigh : isHighSurrogate n = false := by
      simp only [isHighSurrogate, Bool.and_eq_false_iff, decide_eq_false_iff_not]
      omega
    have hlow : isLowSurrogate n = false := by
      simp only [isLowSurrogate, Bool.and_eq_false_iff, decide_eq_false_iff_not]
      omega
    cases units with
    | nil => simp [charsOf?, hhigh, hlow]
    | cons u units => cases u <;> simp [charsOf?, hhigh, hlow]
  have hchars : ∀ cs : List Char, charsOf? (rereadUnits (cs.map .char)) = some cs := by
    intro cs
    induction cs with
    | nil => rfl
    | cons c cs ih =>
        rw [rereadUnits, List.map_cons, List.map_cons, ← rereadUnits, StringUnit.reread]
        split
        · rename_i hc
          have hlt : c.toNat < 32 := by
            simp only [isCoded, Bool.and_eq_true, decide_eq_true_eq] at hc
            exact hc.1
          rw [hcode _ _ hlt, ih, Option.map_some, Char.ofNat_toNat]
        · rw [charsOf?, ih, Option.map_some]
  rw [textOf?, unitsOf, hchars, Option.map_some, String.ofList_toList]

/-! ## Tokens -/

mutual

def tokens : Json → List Token
  | .null => [.null]
  | .bool b => [.bool b]
  | .number text => [.number text]
  | .string units => [.string units]
  | .array items => .openBracket :: tokensOfItems items ++ [.closeBracket]
  | .object entries => .openBrace :: tokensOfEntries entries ++ [.closeBrace]

def tokensOfItems : List Json → List Token
  | [] => []
  | [j] => tokens j
  | j :: rest => tokens j ++ .comma :: tokensOfItems rest

def tokensOfEntries : List (List StringUnit × Json) → List Token
  | [] => []
  | [(key, j)] => .string key :: .colon :: tokens j
  | (key, j) :: rest => .string key :: .colon :: tokens j ++ .comma :: tokensOfEntries rest

end

/-- A text that a number is written with, to be read back. -/
structure IsNumberText (text : List Char) : Prop where
  written : ∃ c rest, text = c :: rest ∧ (c = '-' || c.isDigit) = true ∧
    ∀ c ∈ rest, isNumberChar c = true
  number : (WrittenNumber.ofChars? text).isSome

/-- A document of strings of characters and of numbers that can be read. -/
inductive Readable : Json → Prop where
  | null : Readable .null
  | bool (b : Bool) : Readable (.bool b)
  | number (text : List Char) (h : IsNumberText text) : Readable (.number text)
  | string (cs : List Char) : Readable (.string (cs.map .char))
  | array (items : List Json) (h : ∀ j ∈ items, Readable j) : Readable (.array items)
  | object (entries : List (List Char × Json)) (h : ∀ e ∈ entries, Readable e.2) :
      Readable (.object (entries.map fun e => (e.1.map .char, e.2)))

/-- What follows a number: nothing that could go on with it. -/
def EndsNumber (rest : List Char) : Prop :=
  ∀ c ∈ rest.head?, isNumberChar c = false

theorem EndsNumber.takeWhile {rest : List Char} (h : EndsNumber rest) :
    rest.takeWhile isNumberChar = [] := by
  cases rest with
  | nil => rfl
  | cons c rest => exact List.takeWhile_cons_of_neg (by simp [h c (by simp)])

theorem EndsNumber.dropWhile {rest : List Char} (h : EndsNumber rest) :
    rest.dropWhile isNumberChar = rest := by
  cases rest with
  | nil => rfl
  | cons c rest => exact List.dropWhile_cons_of_neg (by simp [h c (by simp)])

def Token.fixedText? : Token → Option (List Char)
  | .openBrace => some ['\x7b']
  | .closeBrace => some ['\x7d']
  | .openBracket => some ['[']
  | .closeBracket => some [']']
  | .comma => some [',']
  | .colon => some [':']
  | .null => some ['n', 'u', 'l', 'l']
  | .bool true => some ['t', 'r', 'u', 'e']
  | .bool false => some ['f', 'a', 'l', 's', 'e']
  | .number _ | .string _ => none

theorem tokens?_fixed {t : Token} {cs : List Char} (h : t.fixedText? = some cs)
    (rest : List Char) : tokens? (cs ++ rest) = (tokens? rest).map (t :: ·) := by
  cases t with
  | number text => cases h
  | string units => cases h
  | bool b =>
      cases b
      all_goals
        obtain rfl := Option.some.inj h
        simp only [List.cons_append, List.nil_append]
        rw [tokens?]
  | _ =>
      obtain rfl := Option.some.inj h
      simp only [List.cons_append, List.nil_append]
      rw [tokens?]

theorem tokens?_quote {cs rest : List Char} {units : List StringUnit}
    (h : stringUnits? cs = some (units, rest)) :
    tokens? ('"' :: cs) = (tokens? rest).map (.string units :: ·) := by
  rw [tokens?]
  · rw [if_neg (by decide), if_pos rfl]
    split
    · rename_i hread
      obtain ⟨rfl, rfl⟩ := Prod.mk.inj (Option.some.inj (hread.symm.trans h))
      rfl
    · rename_i hread
      cases hread.symm.trans h
  all_goals simp

/-- A number is read up to the first character that numbers are not written with. -/
theorem tokens?_number {text rest : List Char} (h : IsNumberText text) (hr : EndsNumber rest) :
    tokens? (text ++ rest) = (tokens? rest).map (.number text :: ·) := by
  obtain ⟨⟨c, cs, rfl, hc, hcs⟩, hnumber⟩ := h
  have htake : (cs ++ rest).takeWhile isNumberChar = cs := by
    rw [List.takeWhile_append_of_pos hcs, hr.takeWhile, List.append_nil]
  have hdrop : (cs ++ rest).dropWhile isNumberChar = rest := by
    rw [List.dropWhile_append_of_pos hcs, hr.dropWhile]
  obtain ⟨w, hw⟩ := Option.isSome_iff_exists.mp hnumber
  have hne : ∀ d : Char, (d = '-' || d.isDigit) = false → c ≠ d := by
    rintro d hd rfl
    simp [hc] at hd
  have hspace : isSpace c = false := by
    simp [isSpace, hne ' ' (by decide), hne '\n' (by decide), hne '\t' (by decide),
      hne '\r' (by decide)]
  rw [List.cons_append, tokens?]
  · rw [hspace, if_neg Bool.false_ne_true, if_neg (hne '"' (by decide)), if_pos hc, htake, hdrop]
    simp only [hw]
  all_goals
    intros
    simp_all

/-- Characters give the tokens and then those of the rest. -/
def Scans (cs : List Char) (ts : List Token) (rest : List Char) : Prop :=
  tokens? cs = (tokens? rest).map (ts ++ ·)

namespace Scans

variable {cs rest rest' : List Char} {ts ts' : List Token} {t : Token}

theorem of_cons (h : tokens? cs = (tokens? rest).map (t :: ·)) : Scans cs [t] rest :=
  h

theorem trans (h : Scans cs ts rest) (h' : Scans rest ts' rest') : Scans cs (ts ++ ts') rest' := by
  rw [Scans, h, h', Option.map_map]
  simp [Function.comp_def]

theorem cons (h : tokens? cs = (tokens? rest).map (t :: ·)) (h' : Scans rest ts rest') :
    Scans cs (t :: ts) rest' :=
  (of_cons h).trans h'

end Scans

theorem scans_fixed {t : Token} {cs : List Char} (h : t.fixedText? = some cs)
    (rest : List Char) : Scans (cs ++ rest) [t] rest :=
  .of_cons (tokens?_fixed h rest)

theorem scans_writeString (cs rest : List Char) :
    Scans (writeString (cs.map .char) ++ rest) [.string (rereadUnits (cs.map .char))] rest := by
  refine .of_cons ?_
  rw [writeString, List.append_assoc, List.cons_append, List.singleton_append]
  exact tokens?_quote (stringUnits?_written cs rest)

theorem endsNumber_cons {c : Char} (h : isNumberChar c = false) (rest : List Char) :
    EndsNumber (c :: rest) := by
  simpa [EndsNumber] using h

theorem scans_writeItems {items : List Json}
    (h : ∀ j ∈ items, ∀ rest, EndsNumber rest → Scans (write j ++ rest) (tokens (reread j)) rest)
    {rest : List Char} (hr : EndsNumber rest) :
    Scans (writeItems items ++ rest) (tokensOfItems (rereadItems items)) rest := by
  induction items with
  | nil =>
      simp [writeItems, rereadItems, tokensOfItems, Scans]
  | cons j items ih =>
      obtain ⟨hj, hitems⟩ := List.forall_mem_cons.mp h
      cases items with
      | nil => exact hj rest hr
      | cons k items =>
          have hcomma := tokens?_fixed (t := .comma) rfl (writeItems (k :: items) ++ rest)
          have hall := (hj _ (endsNumber_cons (by decide) _)).trans (.cons hcomma (ih hitems))
          simpa [writeItems, rereadItems, tokensOfItems] using hall

theorem scans_writeEntries {entries : List (List Char × Json)}
    (h : ∀ e ∈ entries, ∀ rest, EndsNumber rest →
      Scans (write e.2 ++ rest) (tokens (reread e.2)) rest)
    {rest : List Char} (hr : EndsNumber rest) :
    Scans (writeEntries (entries.map fun e => (e.1.map .char, e.2)) ++ rest)
      (tokensOfEntries (rereadEntries (entries.map fun e => (e.1.map .char, e.2)))) rest := by
  induction entries with
  | nil =>
      simp [writeEntries, rereadEntries, tokensOfEntries, Scans]
  | cons e entries ih =>
      obtain ⟨key, j⟩ := e
      obtain ⟨hj, hentries⟩ := List.forall_mem_cons.mp h
      have hentry : ∀ rest, EndsNumber rest →
          Scans (writeString (key.map .char) ++ ':' :: (write j ++ rest))
            (.string (rereadUnits (key.map .char)) :: .colon :: tokens (reread j)) rest := by
        intro rest hr
        have hcolon := tokens?_fixed (t := .colon) rfl (write j ++ rest)
        exact (scans_writeString key _).trans (.cons hcolon (hj rest hr))
      cases entries with
      | nil => simpa [writeEntries, rereadEntries, tokensOfEntries] using hentry rest hr
      | cons e' entries =>
          obtain ⟨key', j'⟩ := e'
          have hcomma := tokens?_fixed (t := .comma) rfl
          have hall := (hentry _ (endsNumber_cons (by decide) _)).trans
            (.cons (hcomma _) (ih hentries))
          simpa [writeEntries, rereadEntries, tokensOfEntries] using hall

/-- A written document is scanned as the tokens of the document that it is read as. -/
theorem scans_write {j : Json} (h : Readable j) {rest : List Char} (hr : EndsNumber rest) :
    Scans (write j ++ rest) (tokens (reread j)) rest := by
  induction h generalizing rest with
  | null => exact scans_fixed (t := .null) rfl rest
  | bool b => cases b <;> exact scans_fixed (t := .bool _) rfl rest
  | number text h =>
      exact .of_cons (tokens?_number h hr)
  | string cs => exact scans_writeString cs rest
  | array items h ih =>
      have hopen := tokens?_fixed (t := .openBracket) rfl
      have hitems := scans_writeItems (fun j hj _ hr => ih j hj hr)
        (endsNumber_cons (c := ']') (by decide) rest)
      have hall := Scans.cons (hopen _) (hitems.trans (scans_fixed (t := .closeBracket) rfl rest))
      simpa [write, reread, tokens] using hall
  | object entries h ih =>
      have hopen := tokens?_fixed (t := .openBrace) rfl
      have hentries := scans_writeEntries (fun e he _ hr => ih e he hr)
        (endsNumber_cons (c := '\x7d') (by decide) rest)
      have hall := Scans.cons (hopen _) (hentries.trans (scans_fixed (t := .closeBrace) rfl rest))
      simpa [write, reread, tokens] using hall

/-! ## Trees -/

/-- Where an item may come first, anything but the end of the items is read as a value. -/
theorem run_firstItem {st : List Frame} {t : Token} (ts : List Token) (h : t ≠ .closeBracket) :
    run .firstItem st (t :: ts) = run .value st (t :: ts) := by
  cases t with
  | closeBracket => exact absurd rfl h
  | _ => rfl

theorem exists_tokensOfItems (j : Json) (items : List Json) :
    ∃ t ts, tokensOfItems (j :: items) = t :: ts ∧ t ≠ .closeBracket := by
  have hj : ∃ t ts, tokens j = t :: ts ∧ t ≠ .closeBracket := by
    cases j <;> exact ⟨_, _, rfl, by simp⟩
  obtain ⟨t, ts, hj, ht⟩ := hj
  cases items with
  | nil => exact ⟨t, ts, hj, ht⟩
  | cons k items =>
      refine ⟨t, ts ++ .comma :: tokensOfItems (k :: items), ?_, ht⟩
      rw [tokensOfItems, hj, List.cons_append]
      simp

/-- A document is read as a value, whatever it is inside of and whatever follows. -/
def ReadsBack (j : Json) : Prop :=
  ∀ (st : List Frame) (ts : List Token), run .value st (tokens j ++ ts) = run (.after j) st ts

/-- Items are read behind the items that are done. -/
theorem run_tokensOfItems {items : List Json} (h : ∀ j ∈ items, ReadsBack j) (hne : items ≠ [])
    (done : List Json) (st : List Frame) (ts : List Token) :
    run .value (.items done :: st) (tokensOfItems items ++ .closeBracket :: ts) =
      run (.after (.array (done.reverse ++ items))) st ts := by
  induction items generalizing done with
  | nil => exact absurd rfl hne
  | cons j items ih =>
      obtain ⟨hj, hitems⟩ := List.forall_mem_cons.mp h
      cases items with
      | nil =>
          rw [tokensOfItems, hj]
          change run (.after (.array (j :: done).reverse)) st ts = _
          rw [List.reverse_cons]
      | cons k items =>
          have hread := ih hitems (List.cons_ne_nil k items) (j :: done)
          rw [tokensOfItems, List.append_assoc, hj, List.cons_append]
          · change run .value (.items (j :: done) :: st) _ = _
            rw [hread, List.reverse_cons, List.append_assoc, List.singleton_append]
          · simp

/-- Entries are read behind the entries that are done. -/
theorem run_tokensOfEntries {entries : List (List StringUnit × Json)}
    (h : ∀ e ∈ entries, ReadsBack e.2) (hne : entries ≠ [])
    (done : List (List StringUnit × Json)) (st : List Frame) (ts : List Token) :
    run (.key done) st (tokensOfEntries entries ++ .closeBrace :: ts) =
      run (.after (.object (done.reverse ++ entries))) st ts := by
  induction entries generalizing done with
  | nil => exact absurd rfl hne
  | cons e entries ih =>
      obtain ⟨key, j⟩ := e
      obtain ⟨hj, hentries⟩ := List.forall_mem_cons.mp h
      cases entries with
      | nil =>
          change run .value (.entries done key :: st) (tokens j ++ .closeBrace :: ts) = _
          rw [hj]
          change run (.after (.object ((key, j) :: done).reverse)) st ts = _
          rw [List.reverse_cons]
      | cons e' entries =>
          have hread := ih hentries (List.cons_ne_nil e' entries) ((key, j) :: done)
          rw [tokensOfEntries, List.cons_append, List.cons_append, List.append_assoc]
          · change run .value (.entries done key :: st) (tokens j ++ _) = _
            rw [hj, List.cons_append]
            change run (.key ((key, j) :: done)) st _ = _
            rw [hread, List.reverse_cons, List.append_assoc, List.singleton_append]
          · simp

/-- The tokens of a document are read as the document. -/
theorem readsBack (j : Json) : ReadsBack j := by
  intro st ts
  cases j with
  | null => rfl
  | bool b => rfl
  | number text => rfl
  | string units => rfl
  | array items =>
      cases items with
      | nil => rfl
      | cons j items =>
          have hread := run_tokensOfItems (fun k hk => readsBack k) (List.cons_ne_nil j items)
            [] st ts
          -- The first item is not taken for the end of the items.
          obtain ⟨t, ts', hitems, ht⟩ := exists_tokensOfItems j items
          rw [hitems, List.cons_append] at hread
          rw [tokens, hitems, List.append_assoc, List.singleton_append, List.cons_append,
            List.cons_append]
          change run .firstItem (.items [] :: st) (t :: _) = _
          rw [run_firstItem _ ht, hread]
          rfl
  | object entries =>
      cases entries with
      | nil => rfl
      | cons e entries =>
          have hread := run_tokensOfEntries (fun k hk => readsBack k.2)
            (List.cons_ne_nil e entries) [] st ts
          obtain ⟨key, j⟩ := e
          obtain ⟨ts', hentries⟩ : ∃ ts', tokensOfEntries ((key, j) :: entries) =
              .string key :: ts' := by
            cases entries <;> exact ⟨_, rfl⟩
          rw [hentries, List.cons_append] at hread
          rw [tokens, hentries, List.append_assoc, List.singleton_append, List.cons_append,
            List.cons_append]
          exact hread
termination_by sizeOf j
decreasing_by
  · have hlt := List.sizeOf_lt_of_mem hk
    rw [array.sizeOf_spec]
    omega
  · have hlt := List.sizeOf_lt_of_mem hk
    cases k
    simp only [Prod.mk.sizeOf_spec] at hlt
    rw [object.sizeOf_spec]
    dsimp only
    omega

/-- The text of a document is read back. -/
theorem parse?_text {j : Json} (h : Readable j) : parse? j.text = some j.reread := by
  have hscan := @scans_write j h [] (by simp [EndsNumber])
  have hread := readsBack j.reread [] []
  rw [Scans, List.append_nil] at hscan
  rw [List.append_nil] at hread
  have hend : tokens? [] = some [] := by rw [tokens?]
  rw [parse?, text, String.toList_ofList, hscan, hend, Option.map_some, List.append_nil,
    Option.bind_some, hread]
  rfl

end ColumnQuery.Json
