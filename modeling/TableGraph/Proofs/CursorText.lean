import TableGraph.Proofs.Walk.Cursor

/-!
# Cursors and their texts

Main statement: `roundTrip`.  A list of components is read back from its text exactly if there are
components and each is null or fits its type; and whatever text a cursor is read from, its
components are of this kind, so that writing and reading them again changes nothing.
-/

namespace TableGraph.Cursor

/-! ## Numbers that were read -/

theorem toNat_of_isDigit {c : Char} (h : c.isDigit = true) : c.toNat - 48 ≤ 9 := by
  unfold Char.isDigit at h
  rw [Bool.and_eq_true, decide_eq_true_iff, decide_eq_true_iff] at h
  have high : c.toNat ≤ 57 := h.2
  omega

theorem valueOf_lt {ds : List Char} (h : ds.all Char.isDigit = true) :
    Numeral.valueOf ds < 10 ^ ds.length := by
  have ahead : ∀ n, ds.foldl (fun n c => 10 * n + (c.toNat - 48)) n < (n + 1) * 10 ^ ds.length := by
    induction ds with
    | nil => simp
    | cons d ds ih =>
      intro n
      rw [List.all_cons, Bool.and_eq_true] at h
      have digit := toNat_of_isDigit h.1
      have next : 10 * n + (d.toNat - 48) + 1 ≤ (n + 1) * 10 := by omega
      refine Nat.lt_of_lt_of_le (ih h.2 (10 * n + (d.toNat - 48))) ?_
      rw [List.length_cons, Nat.pow_succ', ← Nat.mul_assoc]
      exact Nat.mul_le_mul_right _ next
  have least := ahead 0
  rwa [Nat.zero_add, Nat.one_mul] at least

theorem natAbs_of_whole {cs : List Char} {n : Int} (h : whole cs = .number n) :
    n.natAbs < 10 ^ Numeral.digitLimit := by
  unfold whole at h
  dsimp only at h
  split at h
  · cases h
  split at h
  · cases h
  next hform hshort =>
    rw [Whole.number.injEq] at h
    rw [Bool.or_eq_true, Bool.not_eq_true', not_or, Bool.not_eq_false] at hform
    have abs : n.natAbs = Numeral.valueOf (splitMinus cs).2 := by
      rw [← h]
      split
      · exact Int.natAbs_neg _
      · rfl
    rw [abs]
    exact Nat.lt_of_lt_of_le (valueOf_lt hform.2)
      (Nat.pow_le_pow_right (by decide) (Nat.not_lt.1 hshort))

theorem digitCount_of_lt {n : Nat} (h : n < 10 ^ Numeral.digitLimit) :
    Numeral.digitCount n ≤ Numeral.digitLimit :=
  (Nat.length_toDigits_le_iff (by decide) (by decide)).2 h

/-! ## Components that were read -/

theorem byteCount_of_slice {n : Nat} {cs taken rest : List Char}
    (h : slice n cs = .whole taken rest) : byteCount taken = n := by
  fun_induction slice n cs generalizing taken with
  | case1 cs =>
    cases h
    rfl
  | case2 => cases h
  | case3 n c cs hfits ih =>
    cases hs : slice (n + 1 - c.utf8Size) cs with
    | whole t r =>
      rw [hs] at h
      cases h
      have behind := ih hs
      show c.utf8Size + byteCount t = n + 1
      omega
    | short => rw [hs] at h; cases h
    | split => rw [hs] at h; cases h
  | case4 => cases h

theorem readable_of_payloadValue {tag : CursorTag} {payload : List Char} {v : Value}
    (hsize : byteCount payload < 10 ^ Numeral.digitLimit) (h : payloadValue tag payload = .ok v) :
    CursorPart.Readable ⟨tag, v⟩ := by
  unfold payloadValue at h
  dsimp only at h
  cases tag with
  | text =>
    cases h
    refine .text (digitCount_of_lt ?_)
    rwa [← byteCount_toList, String.toList_ofList]
  | uuid =>
    dsimp only at h
    split at h
    · cases h
      exact .uuid _
    · cases h
  | integer kind =>
    dsimp only at h
    split at h
    · cases h
    · cases h
    · split at h
      next hholds =>
        cases h
        exact .integer hholds
      · cases h

theorem fits_of_payload {tag : CursorTag} {length : Int} {pos stop : Nat} {cs rest : List Char}
    {p : CursorPart} (hsize : length.natAbs < 10 ^ Numeral.digitLimit)
    (h : payload tag length pos cs = .ok (p, stop, rest)) : p.Fits := by
  unfold payload at h
  split at h
  · cases h
    exact .inl rfl
  split at h
  · cases h
  split at h
  · cases h
  · cases h
  next hnonneg taken _ hcut =>
    split at h
    next hvalue =>
      cases h
      refine .inr (readable_of_payloadValue ?_ hvalue)
      rw [byteCount_of_slice hcut]
      omega
    · cases h

theorem fits_of_sized {tag : CursorTag} {pos stop : Nat} {cs rest : List Char} {p : CursorPart}
    (h : sized tag pos cs = .ok (p, stop, rest)) : p.Fits := by
  unfold sized at h
  dsimp only at h
  split at h
  · cases h
  split at h
  · cases h
  · cases h
  next hlength =>
    split at h
    · exact fits_of_payload (natAbs_of_whole hlength) h
    · cases h

theorem fits_of_segment {pos stop : Nat} {cs rest : List Char} {p : CursorPart}
    (h : segment pos cs = .ok (p, stop, rest)) : p.Fits := by
  unfold segment at h
  dsimp only at h
  split at h
  · cases h
  split at h
  · cases h
  · exact fits_of_sized h

/-- Components that were read are some, and all of them fit. -/
theorem fits_of_components {pos : Nat} {cs : List Char} {ps : List CursorPart}
    (h : components pos cs = .ok ps) : ps ≠ [] ∧ ∀ p ∈ ps, p.Fits := by
  fun_induction components pos cs generalizing ps with
  | case1 => cases h
  | case2 pos cs p stop hp =>
    cases h
    exact ⟨List.cons_ne_nil p [], List.forall_mem_singleton.2 (fits_of_segment hp)⟩
  | case3 => cases h
  | case4 => cases h
  | case5 pos cs p stop c rest hp _ _ _ qs hqs ih =>
    cases h
    exact ⟨List.cons_ne_nil p qs, List.forall_mem_cons.2 ⟨fits_of_segment hp, (ih hqs).2⟩⟩
  | case6 => cases h

theorem fits_of_decode {cursor : String} {ps : List CursorPart} (h : decode cursor = .ok ps) :
    ps ≠ [] ∧ ∀ p ∈ ps, p.Fits := by
  unfold decode at h
  split at h
  · cases h
  · exact fits_of_components h

theorem exists_text {ps : List CursorPart} (hne : ps ≠ []) (h : ∀ p ∈ ps, p.Fits) :
    ∃ cursor, encode ps = .ok cursor ∧ decode cursor = .ok ps := by
  have written : encode ps = .ok (String.ofList (joined ps)) :=
    if_neg fun hempty => hne (List.isEmpty_iff.1 hempty)
  exact ⟨_, written, (decode_encode h written).2⟩

/--
The components that a text of theirs is read back as are those of non-empty lists in which every
component is null or fits its type.  Reading gives no others, so what was read is written and read
again without change.
-/
theorem roundTrip :
    (∀ parts : List CursorPart,
      (∃ cursor, encode parts = .ok cursor ∧ decode cursor = .ok parts) ↔
        parts ≠ [] ∧ ∀ p ∈ parts, p.Fits) ∧
    ∀ (cursor : String) (parts : List CursorPart), decode cursor = .ok parts →
      (parts ≠ [] ∧ ∀ p ∈ parts, p.Fits) ∧
      ∃ again, encode parts = .ok again ∧ decode again = .ok parts := by
  refine ⟨fun parts => ⟨?_, fun h => exists_text h.1 h.2⟩, ?_⟩
  · rintro ⟨cursor, -, hread⟩
    exact fits_of_decode hread
  · intro cursor parts hread
    have fits := fits_of_decode hread
    exact ⟨fits, exists_text fits.1 fits.2⟩

/-- A key with a text full of separators, an empty text and a null in it. -/
def mixed : List CursorPart :=
  [⟨.integer .regular, .int (-7)⟩, ⟨.text, .text "é],String[1]:"⟩, ⟨.text, .text ""⟩,
    ⟨.uuid, .null⟩]

theorem fits_mixed : ∀ p ∈ mixed, p.Fits := by
  have short (s : String) (h : s.utf8ByteSize < 10 ^ 20) : CursorPart.Fits ⟨.text, .text s⟩ :=
    .inr (.text (digitCount_le h))
  simp only [mixed, List.forall_mem_cons]
  refine ⟨.inr (.integer (by decide)), short _ (by decide), short _ (by decide), .inl rfl, ?_⟩
  exact fun p hp => absurd hp List.not_mem_nil

theorem roundTrip_mixed :
    encode mixed = .ok "Int[2]:-7,String[14]:é],String[1]:,String[0]:,Uuid[-1]:" ∧
    decode "Int[2]:-7,String[14]:é],String[1]:,String[0]:,Uuid[-1]:" = .ok mixed ∧
    ∃ again, encode mixed = .ok again ∧ decode again = .ok mixed := by
  have written : encode mixed =
      .ok "Int[2]:-7,String[14]:é],String[1]:,String[0]:,Uuid[-1]:" := by
    unfold encode
    rw [if_neg (by decide)]
    exact congrArg Except.ok (by decide +kernel)
  obtain ⟨cursor, hcursor, hread⟩ :=
    (roundTrip.1 mixed).2 ⟨List.cons_ne_nil _ _, fits_mixed⟩
  obtain rfl : _ = cursor := Except.ok.inj (written.symm.trans hcursor)
  exact ⟨written, hread, (roundTrip.2 _ mixed hread).2⟩

end TableGraph.Cursor
