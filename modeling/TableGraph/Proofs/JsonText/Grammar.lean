import Mathlib.Tactic.IntervalCases
import Mathlib.Tactic.Tauto
import TableGraph.Proofs.Identifier
import TableGraph.Proofs.JsonReading
import TableGraph.Proofs.Written.Digits

/-!
# The grammar of JSON

`Json.Denotes` tells which texts denote which values: characters stand for themselves or are
escaped, blanks stand between tokens, whole numbers have no zeros in front, and the names of the
fields of an object are distinct.

Main statement: `Json.ofJson_of_isTextOf`.  A text of the grammar is read as the value that it
denotes, so that it denotes no other.
-/

namespace TableGraph.Json

/-! ## Texts of values -/

/-- Four digits in base sixteen, capital or small, and the number they stand for. -/
inductive SpellsUnit : Nat → List Char → Prop
  | digits {a b c d : Char} {w x y z : Nat} (ha : Text.hexValue? a = some w)
    (hb : Text.hexValue? b = some x) (hc : Text.hexValue? c = some y)
    (hd : Text.hexValue? d = some z) : SpellsUnit (((w * 16 + x) * 16 + y) * 16 + z) [a, b, c, d]

/-- A character as it stands between quotes: itself, behind a backslash, as its unit, or as the pair
of units that it has beyond the first plane. -/
inductive SpellsChar : Char → List Char → Prop
  | plain {c : Char} (printed : ¬ c.toNat < 32) (quote : c ≠ '"') (backslash : c ≠ '\\') :
    SpellsChar c [c]
  | letter {c e : Char} (h : escaped? e = some c) : SpellsChar c ['\\', e]
  | unit {c : Char} {us : List Char} (h : SpellsUnit c.toNat us) : SpellsChar c ('\\' :: 'u' :: us)
  | pair {c : Char} {m n : Nat} {us vs : List Char} (high : SpellsUnit (0xd800 + m) us)
    (low : SpellsUnit (0xdc00 + n) vs) (hm : m < 0x400) (hn : n < 0x400)
    (h : c.toNat = 0x10000 + m * 0x400 + n) :
    SpellsChar c ('\\' :: 'u' :: us ++ '\\' :: 'u' :: vs)

/-- Characters one after another. -/
inductive SpellsChars : List Char → List Char → Prop
  | nil : SpellsChars [] []
  | cons {c : Char} {ds cs rest : List Char} (head : SpellsChar c cs) (tail : SpellsChars ds rest) :
    SpellsChars (c :: ds) (cs ++ rest)

/-- A text between quotes. -/
inductive SpellsText : String → List Char → Prop
  | quoted {s : String} {cs : List Char} (h : SpellsChars s.toList cs) :
    SpellsText s ('"' :: cs ++ ['"'])

/-- Digits without a zero in front of others, no more than are read. -/
structure IsWhole (ds : List Char) : Prop where
  nonempty : ds ≠ []
  digits : ∀ d ∈ ds, d.isDigit = true
  leading : ∀ d es, ds = '0' :: d :: es → False
  short : ds.length ≤ Numeral.digitLimit

/-- A whole number with a minus or without. -/
inductive SpellsInt : Int → List Char → Prop
  | plain {ds : List Char} (h : IsWhole ds) : SpellsInt (Numeral.valueOf ds) ds
  | minus {ds : List Char} (h : IsWhole ds) : SpellsInt (-(Numeral.valueOf ds : Int)) ('-' :: ds)

/-- Blanks, if any. -/
def IsGap (cs : List Char) : Prop := ∀ c ∈ cs, isGap c = true

mutual

/-- The text denotes the value. -/
inductive Denotes : List Char → Value → Prop
  | null : Denotes "null".toList .null
  | true : Denotes "true".toList (.bool .true)
  | false : Denotes "false".toList (.bool .false)
  | int {n : Int} {cs : List Char} (h : SpellsInt n cs) : Denotes cs (.int n)
  | text {s : String} {cs : List Char} (h : SpellsText s cs) : Denotes cs (.text s)
  | emptyList {g : List Char} (hg : IsGap g) : Denotes ('[' :: g ++ [']']) (.list [])
  | list {g cs : List Char} {vs : List Value} (hg : IsGap g) (h : DenotesItems cs vs) :
    Denotes ('[' :: g ++ cs ++ [']']) (.list vs)
  | emptyObject {g : List Char} (hg : IsGap g) : Denotes ('\x7b' :: g ++ ['\x7d']) (.object [])
  | object {g cs : List Char} {fs : List (String × Value)} (hg : IsGap g)
    (h : DenotesFields cs fs) (distinct : (fs.map Prod.fst).Nodup) :
    Denotes ('\x7b' :: g ++ cs ++ ['\x7d']) (.object fs)

/-- Items with commas between them, at least one. -/
inductive DenotesItems : List Char → List Value → Prop
  | last {cs g : List Char} {v : Value} (h : Denotes cs v) (hg : IsGap g) :
    DenotesItems (cs ++ g) [v]
  | more {cs g g' rest : List Char} {v : Value} {vs : List Value} (h : Denotes cs v)
    (hg : IsGap g) (hg' : IsGap g') (tail : DenotesItems rest vs) :
    DenotesItems (cs ++ g ++ ',' :: g' ++ rest) (v :: vs)

/-- Fields with commas between them, at least one. -/
inductive DenotesFields : List Char → List (String × Value) → Prop
  | last {ns g g' cs k : List Char} {name : String} {v : Value} (hname : SpellsText name ns)
    (hg : IsGap g) (hg' : IsGap g') (h : Denotes cs v) (hk : IsGap k) :
    DenotesFields (ns ++ g ++ ':' :: g' ++ cs ++ k) [(name, v)]
  | more {ns g g' cs k k' rest : List Char} {name : String} {v : Value}
    {fs : List (String × Value)} (hname : SpellsText name ns) (hg : IsGap g) (hg' : IsGap g')
    (h : Denotes cs v) (hk : IsGap k) (hk' : IsGap k') (tail : DenotesFields rest fs) :
    DenotesFields (ns ++ g ++ ':' :: g' ++ cs ++ k ++ ',' :: k' ++ rest) ((name, v) :: fs)

end

/-- The text denotes the value, with blanks around it. -/
def IsTextOf (s : String) (v : Value) : Prop :=
  ∃ g cs g', s.toList = g ++ cs ++ g' ∧ IsGap g ∧ Denotes cs v ∧ IsGap g'

/-! ## Characters that are read -/

theorem unit?_of_spells {n : Nat} {us : List Char} (h : SpellsUnit n us) (rest : List Char) :
    unit? (us ++ rest) = some (n, rest) := by
  cases h with
  | digits ha hb hc hd =>
    show (do
      let a ← Text.hexValue? _
      let b ← Text.hexValue? _
      let c ← Text.hexValue? _
      let d ← Text.hexValue? _
      some (((a * 16 + b) * 16 + c) * 16 + d, rest)) = _
    rw [ha, hb, hc, hd]
    rfl

theorem escapedUnit?_toNat (c : Char) (rest : List Char) :
    escapedUnit? c.toNat rest = some (c, rest) := by
  have valid : c.toNat < 0xd800 ∨ 0xdfff < c.toNat ∧ c.toNat < 0x110000 := c.valid
  unfold escapedUnit?
  rw [if_neg (by omega), if_neg (by omega), Char.ofNat_toNat]

/-- The first half of a pair is read together with the half behind it. -/
theorem escapedUnit?_high {n : Nat} (high : 0xd800 ≤ n ∧ n ≤ 0xdbff) (more : List Char) :
    escapedUnit? n ('\\' :: 'u' :: more) = match unit? more with
      | some (m, after) =>
        if 0xdc00 ≤ m ∧ m ≤ 0xdfff then
          some (Char.ofNat (0x10000 + (n - 0xd800) * 0x400 + (m - 0xdc00)), after)
        else some ('\ufffd', '\\' :: 'u' :: more)
      | none => none := if_pos high

theorem escapedUnit?_pair {c : Char} {m n : Nat} {us : List Char}
    (low : SpellsUnit (0xdc00 + n) us) (hm : m < 0x400) (hn : n < 0x400)
    (h : c.toNat = 0x10000 + m * 0x400 + n) (rest : List Char) :
    escapedUnit? (0xd800 + m) ('\\' :: 'u' :: us ++ rest) = some (c, rest) := by
  have same : 0x10000 + (0xd800 + m - 0xd800) * 0x400 + (0xdc00 + n - 0xdc00) = c.toNat := by
    omega
  rw [List.cons_append, List.cons_append, escapedUnit?_high (by omega), unit?_of_spells low]
  dsimp only
  rw [if_pos (by omega), same, Char.ofNat_toNat]

/-- What follows a backslash and `u` is read as a unit. -/
theorem text?_unit (fuel : Nat) (more : List Char) : text? (fuel + 1) ('\\' :: 'u' :: more) = (do
    let (n, after) ← unit? more
    let (d, rest) ← escapedUnit? n after
    let (ds, rest) ← text? fuel rest
    some (d :: ds, rest)) := by
  rw [text?]
  rw [if_neg (by decide), if_neg (by decide), if_pos rfl]
  rfl

/-- A character is read off the front of what follows the opening quote. -/
theorem text?_of_spellsChar {c : Char} {cs : List Char} (h : SpellsChar c cs) (fuel : Nat)
    (rest : List Char) : text? (fuel + 1) (cs ++ rest) =
      (text? fuel rest).map fun found => (c :: found.1, found.2) := by
  rw [Option.map_eq_bind]
  cases h with
  | plain printed quote backslash =>
    show text? (fuel + 1) (c :: rest) = _
    rw [text?]
    rw [if_neg quote, if_neg printed, if_neg backslash]
    rfl
  | @letter e h =>
    have unit : e ≠ 'u' := by
      rintro rfl
      cases h
    show text? (fuel + 1) ('\\' :: e :: rest) = _
    rw [text?]
    rw [if_neg (by decide), if_neg (by decide), if_pos rfl]
    split
    next same => exact absurd (List.cons.inj same).1 unit
    next same =>
      obtain ⟨rfl, rfl⟩ := List.cons.inj same
      rw [h]
      rfl
    next same => cases same
  | @unit us h =>
    show text? (fuel + 1) ('\\' :: 'u' :: (us ++ rest)) = _
    rw [text?_unit, unit?_of_spells h]
    show (escapedUnit? c.toNat rest >>= _) = _
    rw [escapedUnit?_toNat]
    rfl
  | @pair m n us vs high low hm hn h =>
    rw [List.append_assoc]
    show text? (fuel + 1) ('\\' :: 'u' :: (us ++ ('\\' :: 'u' :: vs ++ rest))) = _
    rw [text?_unit, unit?_of_spells high]
    show (escapedUnit? (0xd800 + m) ('\\' :: 'u' :: vs ++ rest) >>= _) = _
    rw [escapedUnit?_pair low hm hn h]
    rfl

theorem SpellsChar.ne_nil {c : Char} {cs : List Char} (h : SpellsChar c cs) : cs ≠ [] := by
  cases h <;> nofun

theorem text?_of_spellsChars {ds cs : List Char} (h : SpellsChars ds cs) {fuel : Nat}
    (enough : cs.length < fuel) (rest : List Char) :
    text? fuel (cs ++ '"' :: rest) = some (ds, rest) := by
  induction h generalizing fuel with
  | nil =>
    obtain ⟨fuel, rfl⟩ := Nat.exists_eq_succ_of_ne_zero (Nat.ne_of_gt enough)
    rfl
  | @cons c ds cs rest' head tail ih =>
    have some := List.length_pos_iff.2 head.ne_nil
    rw [List.length_append] at enough
    obtain ⟨fuel, rfl⟩ := Nat.exists_eq_succ_of_ne_zero (Nat.ne_zero_of_lt enough)
    rw [List.append_assoc, text?_of_spellsChar head, ih (by omega)]
    rfl

/-! ## Numbers that are read -/

/-- What may stand behind a value: nothing, a blank, a comma or a bracket that closes. -/
def Follows (rest : List Char) : Prop :=
  ∀ c, rest.head? = some c → isGap c = true ∨ c = ',' ∨ c = ']' ∨ c = '\x7d'

/-- Nothing that belongs to a number may stand behind it. -/
theorem Follows.elim {P : Char → Bool} {c : Char} {rest : List Char} (h : Follows (c :: rest))
    (all : [' ', '\t', '\n', '\r', ',', ']', '\x7d'].all P = true) : P c = true := by
  refine List.all_eq_true.1 all c ?_
  have first := h c rfl
  unfold isGap at first
  simp only [Bool.or_eq_true, decide_eq_true_iff] at first
  simp only [List.mem_cons, List.not_mem_nil, or_false]
  tauto

theorem takeWhile_of_follows {rest : List Char} (h : Follows rest) :
    rest.takeWhile Char.isDigit = [] ∧ rest.dropWhile Char.isDigit = rest := by
  cases rest with
  | nil => exact ⟨rfl, rfl⟩
  | cons c rest =>
    have other := h.elim (P := (!·.isDigit)) rfl
    rw [Bool.not_eq_true', Bool.eq_false_iff] at other
    exact ⟨List.takeWhile_cons_of_neg other, List.dropWhile_cons_of_neg other⟩

theorem wholeDigits_append {ds rest : List Char} (h : IsWhole ds) (follows : Follows rest) :
    wholeDigits (ds ++ rest) = (ds, rest) := by
  obtain ⟨taken, left⟩ := takeWhile_of_follows follows
  unfold wholeDigits
  split
  next more heq =>
    obtain ⟨d, es, rfl⟩ := List.exists_cons_of_ne_nil h.nonempty
    obtain ⟨rfl, rfl⟩ := List.cons.inj heq
    cases es with
    | nil => rfl
    | cons e es => exact absurd rfl (h.leading e es)
  next =>
    rw [List.takeWhile_append_of_pos h.digits, List.dropWhile_append_of_pos h.digits, taken, left,
      List.append_nil]

theorem fractionChars_of_follows {rest : List Char} (h : Follows rest) :
    fractionChars rest = ([], rest) := by
  unfold fractionChars
  split
  · cases h.elim (P := (· != '.')) rfl
  · rfl

theorem exponentChars_of_follows {rest : List Char} (h : Follows rest) :
    exponentChars rest = ([], rest) := by
  unfold exponentChars
  split
  next c more =>
    have other := h.elim (P := fun c => c != 'e' && c != 'E') rfl
    rw [Bool.and_eq_true, bne_iff_ne, bne_iff_ne] at other
    exact if_neg (not_or.2 other)
  next => rfl

/-- The digits in front of what follows a value are read as a whole number. -/
theorem number_of_whole {cs ds rest : List Char} {negative : Bool}
    (sign : Cursor.splitMinus cs = (negative, ds ++ rest)) (h : IsWhole ds)
    (follows : Follows rest) : number cs =
      .ok (.int (if negative then -(Numeral.valueOf ds : Int) else Numeral.valueOf ds), rest) := by
  have parts {negative' : Bool} {body whole left : List Char}
      (hsign : Cursor.splitMinus cs = (negative', body))
      (hparts : wholeDigits body = (whole, left)) :
      negative' = negative ∧ whole = ds ∧ left = rest := by
    obtain ⟨rfl, rfl⟩ := Prod.mk.inj (hsign.symm.trans sign)
    obtain ⟨rfl, rfl⟩ := Prod.mk.inj (hparts.symm.trans (wholeDigits_append h follows))
    exact ⟨rfl, rfl, rfl⟩
  have none {fraction exponent left after : List Char}
      (hfraction : fractionChars rest = (fraction, left))
      (hexponent : exponentChars left = (exponent, after)) :
      fraction = [] ∧ exponent = [] ∧ after = rest := by
    obtain ⟨rfl, rfl⟩ := Prod.mk.inj (hfraction.symm.trans (fractionChars_of_follows follows))
    obtain ⟨rfl, rfl⟩ := Prod.mk.inj (hexponent.symm.trans (exponentChars_of_follows follows))
    exact ⟨rfl, rfl, rfl⟩
  fun_cases number cs with
  | case1 negative body hsign whole left hparts empty =>
    obtain ⟨-, rfl, -⟩ := parts hsign hparts
    exact absurd (List.isEmpty_iff.1 empty) h.nonempty
  | case2 negative body hsign whole left hparts _ _ _ _ _ _ _ _ long =>
    obtain ⟨-, rfl, -⟩ := parts hsign hparts
    exact absurd long (Nat.not_lt.2 h.short)
  | case3 negative body hsign whole left hparts _ fraction _ hfraction exponent after hexponent =>
    obtain ⟨rfl, rfl, rfl⟩ := parts hsign hparts
    obtain ⟨-, -, rfl⟩ := none hfraction hexponent
    rfl
  | case4 negative body hsign whole left hparts _ fraction _ hfraction exponent after hexponent
      written =>
    obtain ⟨rfl, rfl, rfl⟩ := parts hsign hparts
    obtain ⟨rfl, rfl, -⟩ := none hfraction hexponent
    exact absurd rfl written
  | case5 negative body hsign whole left hparts _ fraction _ hfraction exponent after hexponent
      written =>
    obtain ⟨rfl, rfl, rfl⟩ := parts hsign hparts
    obtain ⟨rfl, rfl, -⟩ := none hfraction hexponent
    exact absurd rfl written

theorem number_of_spellsInt {n : Int} {cs rest : List Char} (h : SpellsInt n cs)
    (follows : Follows rest) : number (cs ++ rest) = .ok (.int n, rest) := by
  cases h with
  | plain h =>
    have sign : Cursor.splitMinus (cs ++ rest) = (false, cs ++ rest) := by
      obtain ⟨d, es, rfl⟩ := List.exists_cons_of_ne_nil h.nonempty
      exact elim_isDigit
        (P := fun d => Cursor.splitMinus (d :: es ++ rest) = (false, d :: es ++ rest))
        (h.digits d List.mem_cons_self) (by intro d hd; interval_cases d <;> rfl)
    exact number_of_whole sign h follows
  | @minus ds h =>
    have sign : Cursor.splitMinus ('-' :: ds ++ rest) = (true, ds ++ rest) := rfl
    exact number_of_whole sign h follows

/-! ## Blanks that are skipped -/

/-- The text begins with something that is no blank and closes nothing. -/
def Starts (cs : List Char) : Prop :=
  ∃ c rest, cs = c :: rest ∧ isGap c = false ∧ c ≠ ']' ∧ c ≠ '\x7d'

theorem Starts.append {cs : List Char} (h : Starts cs) (rest : List Char) :
    Starts (cs ++ rest) := by
  obtain ⟨c, more, rfl, hc⟩ := h
  exact ⟨c, more ++ rest, rfl, hc⟩

theorem skipGap_cons {c : Char} (h : isGap c = false) (cs : List Char) :
    skipGap (c :: cs) = c :: cs :=
  List.dropWhile_cons_of_neg (Bool.eq_false_iff.1 h)

theorem skipGap_append {g : List Char} (hg : IsGap g) (cs : List Char) :
    skipGap (g ++ cs) = skipGap cs :=
  List.dropWhile_append_of_pos hg

theorem skipGap_starts {cs : List Char} (h : Starts cs) : skipGap cs = cs := by
  obtain ⟨c, rest, rfl, hc, -⟩ := h
  exact skipGap_cons hc rest

/-- Blanks are skipped up to what a value begins with. -/
theorem skipGap_front {g cs : List Char} (hg : IsGap g) (h : Starts cs) (rest : List Char) :
    skipGap (g ++ (cs ++ rest)) = cs ++ rest := by
  rw [skipGap_append hg, skipGap_starts (h.append rest)]

theorem Follows.gap {g rest : List Char} (hg : IsGap g) (h : Follows rest) :
    Follows (g ++ rest) := by
  cases g with
  | nil => exact h
  | cons c g =>
    intro d hd
    obtain rfl := Option.some.inj hd
    exact .inl (hg _ List.mem_cons_self)

theorem Follows.comma (rest : List Char) : Follows (',' :: rest) := by
  intro c hc
  exact .inr (.inl (Option.some.inj hc).symm)

theorem Follows.bracket (rest : List Char) : Follows (']' :: rest) := by
  intro c hc
  exact .inr (.inr (.inl (Option.some.inj hc).symm))

theorem Follows.brace (rest : List Char) : Follows ('\x7d' :: rest) := by
  intro c hc
  exact .inr (.inr (.inr (Option.some.inj hc).symm))

theorem SpellsInt.exists_digit {n : Int} {cs : List Char} (h : SpellsInt n cs) :
    ∃ d es, d.isDigit = true ∧ (cs = d :: es ∨ cs = '-' :: d :: es) := by
  have front {ds : List Char} (h : IsWhole ds) : ∃ d es, d.isDigit = true ∧ ds = d :: es := by
    obtain ⟨d, es, rfl⟩ := List.exists_cons_of_ne_nil h.nonempty
    exact ⟨d, es, h.digits d List.mem_cons_self, rfl⟩
  cases h with
  | plain h =>
    obtain ⟨d, es, hd, same⟩ := front h
    exact ⟨d, es, hd, .inl same⟩
  | minus h =>
    obtain ⟨d, es, hd, rfl⟩ := front h
    exact ⟨d, es, hd, .inr rfl⟩

theorem SpellsInt.starts {n : Int} {cs : List Char} (h : SpellsInt n cs) : Starts cs := by
  obtain ⟨d, es, hd, rfl | rfl⟩ := h.exists_digit
  · refine ⟨d, es, rfl, elim_isDigit (P := fun d => isGap d = false ∧ d ≠ ']' ∧ d ≠ '\x7d') hd ?_⟩
    decide
  · exact ⟨'-', d :: es, rfl, by decide⟩

theorem SpellsText.starts {s : String} {cs : List Char} (h : SpellsText s cs) : Starts cs := by
  cases h
  exact ⟨'"', _, rfl, by decide⟩

theorem Denotes.starts {cs : List Char} {v : Value} (h : Denotes cs v) : Starts cs := by
  cases h with
  | null => exact ⟨'n', _, rfl, by decide⟩
  | true => exact ⟨'t', _, rfl, by decide⟩
  | false => exact ⟨'f', _, rfl, by decide⟩
  | int h => exact h.starts
  | text h => exact h.starts
  | emptyList => exact ⟨'[', _, rfl, by decide⟩
  | list => exact ⟨'[', _, rfl, by decide⟩
  | emptyObject => exact ⟨'\x7b', _, rfl, by decide⟩
  | object => exact ⟨'\x7b', _, rfl, by decide⟩

theorem DenotesItems.starts {cs : List Char} {vs : List Value} (h : DenotesItems cs vs) :
    Starts cs := by
  cases h with
  | last h => exact h.starts.append _
  | more h =>
    rw [List.append_assoc, List.append_assoc]
    exact h.starts.append _

theorem DenotesFields.starts {cs : List Char} {fs : List (String × Value)}
    (h : DenotesFields cs fs) : Starts cs := by
  cases h with
  | last hname =>
    simp only [List.append_assoc]
    exact hname.starts.append _
  | more hname =>
    simp only [List.append_assoc]
    exact hname.starts.append _

/-! ## Values that are read -/

theorem value_of_spellsInt {n : Int} {cs rest : List Char} (h : SpellsInt n cs)
    (follows : Follows rest) (fuel : Nat) : value (fuel + 1) (cs ++ rest) = .ok (.int n, rest) := by
  rw [← number_of_spellsInt h follows]
  obtain ⟨d, es, hd, rfl | rfl⟩ := h.exists_digit
  · exact elim_isDigit (P := fun d => value (fuel + 1) (d :: es ++ rest) = number (d :: es ++ rest))
      hd (by intro d hd; interval_cases d <;> rfl)
  · exact elim_isDigit
      (P := fun d => value (fuel + 1) ('-' :: d :: es ++ rest) = number ('-' :: d :: es ++ rest))
      hd (by intro d hd; interval_cases d <;> rfl)

theorem text?_of_spellsText {s : String} {cs : List Char} (h : SpellsText s cs) (rest : List Char) :
    ∃ more, cs ++ rest = '"' :: more ∧
      text? (more.length + 1) more = some (s.toList, rest) := by
  cases h with
  | @quoted cs h =>
    refine ⟨cs ++ '"' :: rest, by rw [List.append_assoc]; rfl, text?_of_spellsChars h ?_ rest⟩
    rw [List.length_append]
    omega

/-- What follows an opening quote is read as a text. -/
theorem value_quote (fuel : Nat) (more : List Char) :
    value (fuel + 1) ('"' :: more) = match text? (more.length + 1) more with
      | some (ds, rest) => .ok (.text (String.ofList ds), rest)
      | none => .error .malformed := rfl

theorem value_of_spellsText {s : String} {cs : List Char} (h : SpellsText s cs) (fuel : Nat)
    (rest : List Char) : value (fuel + 1) (cs ++ rest) = .ok (.text s, rest) := by
  obtain ⟨more, same, read⟩ := text?_of_spellsText h rest
  rw [same, value_quote, read]
  dsimp only
  rw [String.ofList_toList]

theorem setField_new {name : String} {fields : List (String × Value)}
    (h : name ∉ fields.map Prod.fst) (v : Value) :
    setField name v fields = fields ++ [(name, v)] := by
  induction fields with
  | nil => rfl
  | cons field fields ih =>
    rw [List.map_cons, List.mem_cons, not_or] at h
    unfold setField
    rw [if_neg (Ne.symm h.1), ih h.2]
    rfl

theorem not_mem_of_distinct {name : String} {v : Value} {found fields : List (String × Value)}
    (h : ((found ++ (name, v) :: fields).map Prod.fst).Nodup) : name ∉ found.map Prod.fst := by
  rw [List.map_append, List.map_cons] at h
  exact fun mem => (List.nodup_append.1 h).2.2 _ mem _ List.mem_cons_self rfl

/-! ## Steps of the readers -/

section Steps

variable {fuel : Nat} {v : Value} {cs more rest : List Char}

/-- What follows an opening bracket tells whether there are items. -/
theorem value_bracket (fuel : Nat) (more : List Char) :
    value (fuel + 1) ('[' :: more) = match skipGap more with
      | ']' :: after => .ok (.list [], after)
      | rest => items fuel rest >>= fun (vs, rest) => .ok (.list vs, rest) := rfl

theorem value_list (h : skipGap more = cs) (starts : Starts cs) :
    value (fuel + 1) ('[' :: more) =
      items fuel cs >>= fun (vs, rest) => .ok (.list vs, rest) := by
  obtain ⟨c, rest, rfl, -, other, -⟩ := starts
  rw [value_bracket, h]
  split
  next same => exact absurd (List.cons.inj same).1 other
  next => rfl

/-- What follows an opening brace tells whether there are fields. -/
theorem value_brace (fuel : Nat) (more : List Char) :
    value (fuel + 1) ('\x7b' :: more) = match skipGap more with
      | '\x7d' :: after => .ok (.object [], after)
      | rest => fields fuel [] rest >>= fun (fs, rest) => .ok (.object fs, rest) := rfl

theorem value_object (h : skipGap more = cs) (starts : Starts cs) :
    value (fuel + 1) ('\x7b' :: more) =
      fields fuel [] cs >>= fun (fs, rest) => .ok (.object fs, rest) := by
  obtain ⟨c, rest, rfl, -, -, other⟩ := starts
  rw [value_brace, h]
  split
  next same => exact absurd (List.cons.inj same).1 other
  next => rfl

/-- An item is read first, and what follows it tells whether it is the last. -/
theorem items_item (hv : value fuel cs = .ok (v, more)) :
    items (fuel + 1) cs = match skipGap more with
      | ']' :: after => .ok ([v], after)
      | ',' :: rest => items fuel (skipGap rest) >>= fun (vs, after) => .ok (v :: vs, after)
      | _ => .error .malformed := by
  show (value fuel cs >>= _) = _
  rw [hv]
  rfl

variable {name : String} {found : List (String × Value)} {after behind : List Char}

/-- What follows the opening quote of a name. -/
theorem fields_name (fuel : Nat) (found : List (String × Value)) (cs : List Char) :
    fields (fuel + 1) found ('"' :: cs) = match text? (cs.length + 1) cs with
      | none => .error .malformed
      | some (name, rest) =>
        match skipGap rest with
        | ':' :: rest => value fuel (skipGap rest) >>= fun (v, rest) =>
          match skipGap rest with
          | '\x7d' :: after => .ok (setField (String.ofList name) v found, after)
          | ',' :: more => fields fuel (setField (String.ofList name) v found) (skipGap more)
          | _ => .error .malformed
        | _ => .error .malformed := rfl

/-- The name, the colon and the value of a field are read first. -/
theorem fields_field (hname : text? (cs.length + 1) cs = some (name.toList, after))
    (colon : skipGap after = ':' :: behind) (hv : value fuel (skipGap behind) = .ok (v, more)) :
    fields (fuel + 1) found ('"' :: cs) = match skipGap more with
      | '\x7d' :: rest => .ok (setField name v found, rest)
      | ',' :: rest => fields fuel (setField name v found) (skipGap rest)
      | _ => .error .malformed := by
  rw [fields_name, hname]
  dsimp only
  rw [colon]
  show (value fuel (skipGap behind) >>= _) = _
  rw [hv, String.ofList_toList]
  rfl

end Steps

/-! ## Whole texts that are read -/

/-- Texts of values are read, if the steps are enough. -/
def ReadsValues (fuel : Nat) : Prop :=
  ∀ {cs rest : List Char} {v : Value}, Denotes cs v → Follows rest → cs.length ≤ fuel →
    value fuel (cs ++ rest) = .ok (v, rest)

/-- Items are read up to the closing bracket, if the steps are enough. -/
def ReadsItems (fuel : Nat) : Prop :=
  ∀ {cs : List Char} {vs : List Value} (rest : List Char), DenotesItems cs vs →
    cs.length < fuel → items fuel (cs ++ ']' :: rest) = .ok (vs, rest)

/-- Fields are read up to the closing brace and put behind others, if the steps are enough. -/
def ReadsFields (fuel : Nat) : Prop :=
  ∀ {cs : List Char} {fs : List (String × Value)} (found : List (String × Value))
    (rest : List Char), DenotesFields cs fs → ((found ++ fs).map Prod.fst).Nodup →
    cs.length < fuel → fields fuel found (cs ++ '\x7d' :: rest) = .ok (found ++ fs, rest)

section Readers

variable {fuel : Nat} (hvalue : ReadsValues fuel) (hitems : ReadsItems fuel)
  (hfields : ReadsFields fuel)

include hitems hfields in
theorem readsValues_succ : ReadsValues (fuel + 1) := by
  intro cs rest v h follows enough
  cases h with
  | null => rfl
  | true => rfl
  | false => rfl
  | int h => exact value_of_spellsInt h follows fuel
  | text h => exact value_of_spellsText h fuel rest
  | @emptyList g hg =>
    rw [List.append_assoc]
    show value (fuel + 1) ('[' :: (g ++ ']' :: rest)) = _
    rw [value_bracket, skipGap_append hg]
    rfl
  | @list g cs vs hg h =>
    have short : cs.length < fuel := by
      simp only [List.length_append, List.length_cons, List.length_nil] at enough
      omega
    rw [List.append_assoc, List.append_assoc]
    show value (fuel + 1) ('[' :: (g ++ (cs ++ ']' :: rest))) = _
    rw [value_list (skipGap_front hg h.starts _) (h.starts.append _), hitems rest h short]
    rfl
  | @emptyObject g hg =>
    rw [List.append_assoc]
    show value (fuel + 1) ('\x7b' :: (g ++ '\x7d' :: rest)) = _
    rw [value_brace, skipGap_append hg]
    rfl
  | @object g cs fs hg h distinct =>
    have short : cs.length < fuel := by
      simp only [List.length_append, List.length_cons, List.length_nil] at enough
      omega
    rw [List.append_assoc, List.append_assoc]
    show value (fuel + 1) ('\x7b' :: (g ++ (cs ++ '\x7d' :: rest))) = _
    rw [value_object (skipGap_front hg h.starts _) (h.starts.append _),
      hfields [] rest h distinct short]
    rfl

include hvalue hitems in
theorem readsItems_succ : ReadsItems (fuel + 1) := by
  intro cs vs rest h enough
  cases h with
  | @last cs g v h hg =>
    rw [List.length_append] at enough
    rw [List.append_assoc, items_item (hvalue h ((Follows.bracket rest).gap hg) (by omega)),
      skipGap_append hg]
    rfl
  | @more cs g g' after v vs h hg hg' tail =>
    simp only [List.length_append, List.length_cons] at enough
    rw [List.append_assoc, List.append_assoc, List.append_assoc, List.cons_append,
      items_item (hvalue h ((Follows.comma _).gap hg) (by omega)), skipGap_append hg]
    show (items fuel (skipGap (g' ++ (after ++ ']' :: rest))) >>= _) = _
    rw [skipGap_front hg' tail.starts, hitems rest tail (by omega)]
    rfl

include hvalue in
/-- A field of a new name is read and put behind the others. -/
theorem fields_of_denotes {ns g g' cs more : List Char} {name : String} {v : Value}
    {found : List (String × Value)} (hname : SpellsText name ns) (hg : IsGap g) (hg' : IsGap g')
    (h : Denotes cs v) (follows : Follows more) (short : cs.length ≤ fuel)
    (new : name ∉ found.map Prod.fst) :
    fields (fuel + 1) found (ns ++ (g ++ ':' :: (g' ++ (cs ++ more)))) = match skipGap more with
      | '\x7d' :: rest => .ok (found ++ [(name, v)], rest)
      | ',' :: rest => fields fuel (found ++ [(name, v)]) (skipGap rest)
      | _ => .error .malformed := by
  obtain ⟨inner, same, read⟩ := text?_of_spellsText hname (g ++ ':' :: (g' ++ (cs ++ more)))
  have behind : value fuel (skipGap (g' ++ (cs ++ more))) = .ok (v, more) := by
    rw [skipGap_front hg' h.starts]
    exact hvalue h follows short
  rw [same, fields_field read (skipGap_append hg _) behind, setField_new new]

include hvalue hfields in
theorem readsFields_succ : ReadsFields (fuel + 1) := by
  intro cs fs found rest h distinct enough
  cases h with
  | @last ns g g' cs k name v hname hg hg' h hk =>
    have new := not_mem_of_distinct distinct
    simp only [List.length_append, List.length_cons] at enough
    simp only [List.append_assoc, List.cons_append]
    rw [fields_of_denotes hvalue hname hg hg' h ((Follows.brace rest).gap hk) (by omega) new,
      skipGap_append hk]
    rfl
  | @more ns g g' cs k k' after name v fs hname hg hg' h hk hk' tail =>
    have new := not_mem_of_distinct distinct
    simp only [List.length_append, List.length_cons] at enough
    simp only [List.append_assoc, List.cons_append]
    rw [fields_of_denotes hvalue hname hg hg' h ((Follows.comma _).gap hk) (by omega) new,
      skipGap_append hk]
    rw [List.append_cons] at distinct
    show fields fuel _ (skipGap (k' ++ (after ++ '\x7d' :: rest))) = _
    rw [skipGap_front hk' tail.starts,
      hfields _ rest tail distinct (by omega), ← List.append_cons]

end Readers

/-- Each reader takes the texts of the grammar as what they denote. -/
theorem readers_read (fuel : Nat) : ReadsValues fuel ∧ ReadsItems fuel ∧ ReadsFields fuel := by
  induction fuel with
  | zero =>
    refine ⟨fun h _ short => ?_, fun _ _ short => absurd short (Nat.not_lt_zero _),
      fun _ _ _ _ short => absurd short (Nat.not_lt_zero _)⟩
    obtain ⟨c, more, rfl, -⟩ := h.starts
    exact absurd short (Nat.not_succ_le_zero _)
  | succ fuel ih =>
    obtain ⟨hvalue, hitems, hfields⟩ := ih
    exact ⟨readsValues_succ hitems hfields, readsItems_succ hvalue hitems,
      readsFields_succ hvalue hfields⟩

/-- Nothing but blanks may follow the value that is read. -/
theorem ofJson_of_value {s : String} {v : Value} {rest : List Char}
    (h : value ((skipGap s.toList).length + 1) (skipGap s.toList) = .ok (v, rest)) :
    Value.ofJson s = if (skipGap rest).isEmpty then .ok v else .error .malformed := by
  unfold Value.ofJson
  dsimp only
  rw [h]
  rfl

/-- A text of the grammar is read as the value that it denotes. -/
theorem ofJson_of_isTextOf {s : String} {v : Value} (h : IsTextOf s v) :
    Value.ofJson s = .ok v := by
  obtain ⟨g, cs, g', same, hg, denotes, hg'⟩ := h
  have front : skipGap s.toList = cs ++ g' := by
    rw [same, List.append_assoc, skipGap_front hg denotes.starts]
  have read : value ((cs ++ g').length + 1) (cs ++ g') = .ok (v, g') := by
    refine (readers_read _).1 denotes ?_ ?_
    · rw [← List.append_nil g']
      exact Follows.gap hg' nofun
    · rw [List.length_append]
      omega
  rw [ofJson_of_value (front ▸ read), ← List.append_nil g', skipGap_append hg']
  rfl

end TableGraph.Json
