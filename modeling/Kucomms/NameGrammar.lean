import Kucomms.RegistryRefinement

/-!
# The names of devices

What is written to `create_device` and `remove_device` is the name of a
device, with a newline behind it if it comes from a shell. The grammar of the
names is `"kucomms_"` and one or more of the letters `a` to `z` and `'_'`, 63
characters in all.

The checks of the two functions look at the length before the newline is
taken off. `parsed_by_grammar_iff` says for which strings that makes no
difference: all but the prefix alone, and names of 63 characters, each with
and without a newline. The first is a name with a newline and not without,
and the second one is a name without and not with.
-/

open Prog

/-! ## The grammar -/

/-- **The name of a device**: the prefix, and then one or more letters. -/
def DeviceName (n : List UInt8) : Prop :=
  ∃ suffix, n = basename ++ suffix ∧ suffix ≠ []
    ∧ (∀ b ∈ suffix, 97 ≤ b ∧ b ≤ 122 ∨ b = 95) ∧ n.length ≤ 63

/-- A string without one trailing newline, if it has one. -/
def stripNewline (s : List UInt8) : List UInt8 :=
  if s.getLast? = some 10 then s.dropLast else s

@[simp] theorem stripNewline_concat (n : List UInt8) :
    stripNewline (n ++ [10]) = n := by
  rw [stripNewline, if_pos List.getLast?_concat, List.dropLast_concat]

theorem stripNewline_of_ne {s : List UInt8} (h : s.getLast? ≠ some 10) :
    stripNewline s = s := if_neg h

/-- A string is what it is stripped to, or that and a newline. -/
theorem stripNewline_cases (s : List UInt8) :
    stripNewline s = s ∨ s = stripNewline s ++ [10] := by
  by_cases h : s.getLast? = some 10
  · refine .inr ?_
    rw [stripNewline, if_pos h]
    exact (List.dropLast_append_getLast? 10 h).symm
  · exact .inl (stripNewline_of_ne h)

theorem nameChar_iff {b : UInt8} :
    nameChar b = true ↔ 97 ≤ b ∧ b ≤ 122 ∨ b = 95 := by
  simp only [nameChar, Bool.or_eq_true, Bool.and_eq_true, decide_eq_true_eq]

theorem basename_chars : ∀ b ∈ basename, nameChar b = true := by
  decide +kernel

/-- The grammar as the code looks at it. -/
theorem deviceName_iff {n : List UInt8} :
    DeviceName n ↔ (9 ≤ n.length ∧ n.length ≤ 63) ∧ basename <+: n
      ∧ ∀ b ∈ n, nameChar b = true := by
  constructor
  · rintro ⟨suffix, rfl, hne, hchars, hlen⟩
    have hpos := List.length_pos_iff.mpr hne
    rw [List.length_append] at hlen ⊢
    refine ⟨⟨Nat.add_le_add (show 8 ≤ basename.length from le_refl _) hpos,
      hlen⟩, List.prefix_append _ _, fun b hb => ?_⟩
    rcases List.mem_append.mp hb with hb | hb
    · exact basename_chars b hb
    · exact nameChar_iff.mpr (hchars b hb)
  · rintro ⟨⟨hge, hle⟩, ⟨suffix, rfl⟩, hchars⟩
    refine ⟨suffix, rfl, ?_, fun b hb => ?_, hle⟩
    · rintro rfl
      exact absurd hge (by decide)
    · exact nameChar_iff.mp (hchars b (List.mem_append_right _ hb))

/-! ## The checks -/

/-- **What the checks come to**: the length is that of the string as it is
written, and all else is looked at without the newline. -/
def PassesChecks (s : List UInt8) : Prop :=
  (9 ≤ s.length ∧ s.length ≤ 63) ∧ basename <+: stripNewline s
    ∧ ∀ b ∈ stripNewline s, nameChar b = true

instance (s : List UInt8) : Decidable (PassesChecks s) :=
  inferInstanceAs (Decidable (_ ∧ _))

section Checks

variable {p : Bytes} {len : UInt32}

/-- **The loop over the characters.** -/
theorem nameCharsOk_iff {l n u0 : ℕ} (hend : u0 + n = l) :
    nameCharsOk p l n u0 = true
      ↔ ∀ j, u0 ≤ j → j < l → nameChar (p j) = true
        ∨ p j = 10 ∧ j = l - 1 := by
  induction n generalizing u0 with
  | zero => exact ⟨fun _ j hj hl => by omega, fun _ => rfl⟩
  | succ n ih =>
    unfold nameCharsOk
    split
    · next hchar =>
      rw [ih (by omega)]
      constructor
      · intro h j hj hl
        rcases Nat.eq_or_lt_of_le hj with rfl | hlt
        · exact .inl hchar
        · exact h j hlt hl
      · exact fun h j hj hl => h j (by omega) hl
    · next hchar =>
      rw [Bool.and_eq_true, decide_eq_true_eq, decide_eq_true_eq]
      constructor
      · intro h j hj hl
        have hj' : j = u0 := by omega
        exact .inr (hj' ▸ h)
      · intro h
        exact (h u0 (le_refl _) (by omega)).resolve_left hchar

/-- The bytes before the last one. -/
theorem nameBytes_concat (hpos : 0 < len.toNat) :
    nameBytes p len
      = (List.range (len.toNat - 1)).map p ++ [p (len.toNat - 1)] := by
  obtain ⟨m, hm⟩ := Nat.exists_eq_succ_of_ne_zero (Nat.ne_of_gt hpos)
  rw [nameBytes, hm, List.range_succ, List.map_append, Nat.succ_sub_one]
  rfl

theorem getLast_nameBytes (hpos : 0 < len.toNat) :
    (nameBytes p len).getLast? = some (p (len.toNat - 1)) := by
  rw [nameBytes_concat hpos, List.getLast?_concat]

theorem stripNewline_nameBytes (hpos : 0 < len.toNat) :
    stripNewline (nameBytes p len)
      = nameBytes p (if p (len.toNat - 1) = 10 then len - 1 else len) := by
  split
  · next hlast =>
    have hone : (len - 1).toNat = len.toNat - 1 :=
      UInt32.toNat_sub_of_le _ _ (UInt32.le_iff_toNat_le.mpr hpos)
    rw [nameBytes_concat hpos, hlast, stripNewline_concat, nameBytes, hone]
  · next hlast =>
    refine stripNewline_of_ne ?_
    rw [getLast_nameBytes hpos]
    exact fun hc => hlast (Option.some.inj hc)

/-- The first characters. -/
theorem basename_prefix_iff (hlen : 8 < len.toNat) :
    (List.range basename.length).map p = basename
      ↔ basename <+: stripNewline (nameBytes p len) := by
  have hpre : ∀ l : UInt32, 8 ≤ l.toNat →
      ((List.range basename.length).map p = basename
        ↔ basename <+: nameBytes p l) := by
    intro l hl
    rw [List.prefix_iff_eq_take, nameBytes, ← List.map_take, List.take_range,
      show min basename.length l.toNat = basename.length from
        Nat.min_eq_left hl]
    exact eq_comm
  rw [stripNewline_nameBytes (by omega)]
  refine hpre _ ?_
  split
  · have hone : (len - 1).toNat = len.toNat - 1 :=
      UInt32.toNat_sub_of_le _ _ (UInt32.le_iff_toNat_le.mpr
        (Nat.one_le_of_lt hlen))
    omega
  · omega

/-- The characters are letters, but for the newline. -/
theorem chars_iff (hpos : 0 < len.toNat) :
    nameCharsOk p len.toNat len.toNat 0 = true
      ↔ ∀ b ∈ stripNewline (nameBytes p len), nameChar b = true := by
  rw [nameCharsOk_iff (Nat.zero_add _), stripNewline_nameBytes hpos]
  have hone : (len - 1).toNat = len.toNat - 1 :=
    UInt32.toNat_sub_of_le _ _ (UInt32.le_iff_toNat_le.mpr hpos)
  simp only [nameBytes, List.mem_map, List.mem_range, forall_exists_index,
    and_imp, forall_apply_eq_imp_iff₂, Nat.zero_le, true_imp_iff]
  by_cases hlast : p (len.toNat - 1) = 10
  · rw [if_pos hlast, hone]
    constructor
    · intro h j hj
      exact (h j (by omega)).resolve_right (fun hc => by omega)
    · intro h j hj
      by_cases hjl : j = len.toNat - 1
      · exact .inr ⟨hjl ▸ hlast, hjl⟩
      · exact .inl (h j (by omega))
  · rw [if_neg hlast]
    constructor
    · intro h j hj
      exact (h j hj).resolve_right (fun hc => hlast (hc.2 ▸ hc.1))
    · exact fun h j hj => .inl (h j hj)

/-- The checks as they are made. -/
theorem passesChecks_iff : PassesChecks (nameBytes p len)
    ↔ (9 ≤ len.toNat ∧ len.toNat ≤ 63)
      ∧ (List.range basename.length).map p = basename
      ∧ nameCharsOk p len.toNat len.toNat 0 = true := by
  unfold PassesChecks
  rw [length_nameBytes]
  refine and_congr_right (fun hbounds => ?_)
  have hgt : 8 < len.toNat := hbounds.1
  rw [basename_prefix_iff hgt, chars_iff (Nat.zero_lt_of_lt hgt)]

/-- **The checks, and the name that they leave.** -/
theorem checkName_eq :
    checkName ⟨some p, len⟩
      = if PassesChecks (nameBytes p len) then
          some (p, if p (len.toNat - 1) = 10 then len - 1 else len)
        else none := by
  unfold checkName
  dsimp only
  by_cases hpass : PassesChecks (nameBytes p len)
  · rw [if_pos hpass]
    obtain ⟨⟨hge, hle⟩, hpre, hchars⟩ := passesChecks_iff.mp hpass
    have hzero : len ≠ 0 := fun hc => by
      rw [hc] at hge
      exact absurd hge (by decide)
    have hlt : ¬ len ≥ kucommsFnameSize := fun hc => by
      have hbig : 64 ≤ len.toNat := UInt32.le_iff_toNat_le.mp hc
      omega
    have hgt : ¬ len.toNat ≤ basename.length :=
      Nat.not_le.mpr (show 8 < len.toNat by omega)
    rw [if_neg hzero, if_neg hlt, if_neg hgt, if_neg (not_not.mpr hpre),
      hchars, if_neg (fun hc => Bool.false_ne_true hc.symm)]
    split <;> rfl
  · rw [if_neg hpass]
    rw [passesChecks_iff] at hpass
    split
    · rfl
    split
    · rfl
    next hlt =>
    have hlt' : len.toNat < 64 := UInt32.not_le.mp hlt
    split
    · rfl
    next hgt =>
    have hgt' : 8 < len.toNat := Nat.not_le.mp hgt
    split
    · rfl
    next hpre =>
    split
    · rfl
    next hchars =>
    exact absurd ⟨⟨hgt', Nat.le_of_lt_succ hlt'⟩, not_not.mp hpre,
      Bool.eq_true_of_not_eq_false hchars⟩ hpass

end Checks

/-- **The name that a string stands for**, if it passes the checks. -/
theorem checkedKey_eq (p : Bytes) (len : UInt32) :
    checkedKey ⟨some p, len⟩
      = if PassesChecks (nameBytes p len) then
          some (stripNewline (nameBytes p len))
        else none := by
  unfold checkedKey
  rw [checkName_eq]
  split
  · next hpass =>
    have hlen := hpass.1.1
    rw [length_nameBytes] at hlen
    rw [stripNewline_nameBytes (by omega)]
    rfl
  · rfl

/-- Where the checks and the grammar differ. -/
theorem passes_iff_deviceName {s : List UInt8}
    (hbare : s ≠ basename ++ [10])
    (hlong : ¬(DeviceName (stripNewline s)
      ∧ s = stripNewline s ++ [10] ∧ (stripNewline s).length = 63)) :
    PassesChecks s ↔ DeviceName (stripNewline s) := by
  rw [deviceName_iff] at hlong ⊢
  unfold PassesChecks
  rcases stripNewline_cases s with hs | hs
  · rw [hs]
  have hlen := congrArg List.length hs
  rw [List.length_append, List.length_singleton] at hlen
  constructor
  · rintro ⟨⟨hge, hle⟩, hpre, hchars⟩
    refine ⟨⟨?_, by omega⟩, hpre, hchars⟩
    by_contra hshort
    -- nothing is left behind the prefix
    have hn := hpre.eq_of_length_le (show _ ≤ 8 by omega)
    rw [← hn] at hs
    exact hbare hs
  · rintro ⟨⟨hge, hle⟩, hpre, hchars⟩
    refine ⟨⟨by omega, ?_⟩, hpre, hchars⟩
    by_contra hbig
    exact hlong ⟨⟨⟨hge, hle⟩, hpre, hchars⟩, hs, by omega⟩

/-! ## Two strings that stand for the same name -/

section Same

variable {name name' : Name} (h : checkedKey name = checkedKey name')

/-- What is stored of a name is its bytes. -/
theorem withName_congr {p p' : Bytes} {len : UInt32}
    (hbytes : nameBytes p len = nameBytes p' len) :
    withName p len = withName p' len := by
  have hover : ∀ q, overwrite q p 0 len.toNat = overwrite q p' 0 len.toNat := by
    intro q
    funext j
    by_cases hj : 0 ≤ j ∧ j < 0 + len.toNat
    · rw [overwrite, overwrite, if_pos hj, if_pos hj]
      exact (nameBytes_eq.mp hbytes).2 j (by omega)
    · rw [overwrite, overwrite, if_neg hj, if_neg hj]
  funext e
  unfold withName
  rw [hover]

theorem find_congr {p p' : Bytes} {len : UInt32}
    (hbytes : nameBytes p len = nameBytes p' len) (r : Registry)
    (t : RegTable) : r.find t ⟨some p, len⟩ = r.find t ⟨some p', len⟩ := by
  unfold Registry.find Name.key
  dsimp only
  rw [hbytes]

include h

/-- The two pass the checks with the same bytes, or neither does. -/
theorem checkName_congr :
    checkName name = none ∧ checkName name' = none
      ∨ ∃ p p' len, checkName name = some (p, len)
        ∧ checkName name' = some (p', len)
        ∧ nameBytes p len = nameBytes p' len := by
  unfold checkedKey at h
  cases hn : checkName name with
  | none =>
    rw [hn] at h
    exact .inl ⟨rfl, Option.map_eq_none_iff.mp h.symm⟩
  | some n =>
    rw [hn] at h
    obtain ⟨n', hn', hbytes⟩ := Option.map_eq_some_iff.mp h.symm
    obtain ⟨p, len⟩ := n
    obtain ⟨p', len'⟩ := n'
    obtain rfl := (nameBytes_eq.mp hbytes).1
    exact .inr ⟨p, p', len', rfl, hn', hbytes.symm⟩

/-- **`kucomms_char_device_create` sees the name only.** -/
theorem create_congr (env : ChrdevAnswer) (r : Registry) :
    (kucommsCharDeviceCreate name).atomic env r
      = (kucommsCharDeviceCreate name').atomic env r := by
  unfold kucommsCharDeviceCreate
  rcases checkName_congr h with ⟨hn, hn'⟩ | ⟨p, p', len, hn, hn', hbytes⟩
  · rw [hn, hn']
  · rw [hn, hn']
    have hwith := withName_congr hbytes
    have hcreated : created env p len = created env p' len := by
      unfold created
      rw [hwith]
    have hback : rolledBack p len = rolledBack p' len := by
      unfold rolledBack
      rw [hwith]
    dsimp only
    rw [atomic_locked, atomic_locked, charDeviceCreate_run,
      charDeviceCreate_run, find_congr hbytes, hcreated, hback]

/-- **`kucomms_char_device_remove` sees the name only.** -/
theorem remove_congr (env : ChrdevAnswer) (r : Registry) :
    (kucommsCharDeviceRemove name).atomic env r
      = (kucommsCharDeviceRemove name').atomic env r := by
  unfold kucommsCharDeviceRemove
  rcases checkName_congr h with ⟨hn, hn'⟩ | ⟨p, p', len, hn, hn', hbytes⟩
  · rw [hn, hn']
  · rw [hn, hn']
    dsimp only
    rw [atomic_locked, atomic_locked, charDeviceRemove_run,
      charDeviceRemove_run, find_congr hbytes, find_congr hbytes]

end Same

/-! ## The grammar and the checks -/

/-- **A call that passes the checks on its name**: it does not return false
at once, but goes on to take the mutex. -/
def GoesOn (p : LockedRegProg Bool) : Prop := p ≠ .ret false

theorem create_goesOn {name : Name} :
    GoesOn (kucommsCharDeviceCreate name) ↔ (checkedKey name).isSome := by
  unfold GoesOn kucommsCharDeviceCreate checkedKey
  cases checkName name with
  | none => exact ⟨fun hc => absurd rfl hc, fun hc => absurd hc (by decide)⟩
  | some n => exact ⟨fun _ => rfl, fun _ => nofun⟩

theorem remove_goesOn {name : Name} :
    GoesOn (kucommsCharDeviceRemove name) ↔ (checkedKey name).isSome := by
  unfold GoesOn kucommsCharDeviceRemove checkedKey
  cases checkName name with
  | none => exact ⟨fun hc => absurd rfl hc, fun hc => absurd hc (by decide)⟩
  | some n => exact ⟨fun _ => rfl, fun _ => nofun⟩

/-- **A string is parsed by the grammar**, by both functions, and if it has no
newline then it is the same with one, in every table that has a free slot. -/
structure ParsedByGrammar (p : Bytes) (len : UInt32) : Prop where
  create : GoesOn (kucommsCharDeviceCreate ⟨some p, len⟩)
    ↔ DeviceName (stripNewline (nameBytes p len))
  /-- The other copy of the checks. -/
  remove : GoesOn (kucommsCharDeviceRemove ⟨some p, len⟩)
    ↔ DeviceName (stripNewline (nameBytes p len))
  newline : 10 ∉ nameBytes p len → ∀ (p' : Bytes) (len' : UInt32),
    nameBytes p' len' = nameBytes p len ++ [10] →
    ∀ (env : ChrdevAnswer) (r : Registry), 0 ≤ env.major →
    (∃ u, r.slotKeys .devlist u = none) →
    (kucommsCharDeviceCreate ⟨some p', len'⟩).atomic env r
        = (kucommsCharDeviceCreate ⟨some p, len⟩).atomic env r
      ∧ (kucommsCharDeviceRemove ⟨some p', len'⟩).atomic env r
        = (kucommsCharDeviceRemove ⟨some p, len⟩).atomic env r

/-- **The strings for which the length makes no difference**: without the
newline they are not the prefix alone, nor a name of 63 characters. -/
def Unambiguous (s : List UInt8) : Prop :=
  stripNewline s ≠ basename
    ∧ ¬(DeviceName (stripNewline s) ∧ (stripNewline s).length = 63)

section Parsed

variable {p p' : Bytes} {len len' : UInt32}

theorem isSome_checkedKey : (checkedKey ⟨some p, len⟩).isSome
    ↔ PassesChecks (nameBytes p len) := by
  rw [checkedKey_eq]
  split
  · next hpass => exact ⟨fun _ => hpass, fun _ => rfl⟩
  · next hpass =>
    exact ⟨fun hc => absurd hc (by decide), fun hc => absurd hc hpass⟩

theorem unambiguous_passes (h : Unambiguous (nameBytes p len)) :
    PassesChecks (nameBytes p len)
      ↔ DeviceName (stripNewline (nameBytes p len)) := by
  refine passes_iff_deviceName (fun hc => ?_)
    (fun hc => h.2 ⟨hc.1, hc.2.2⟩)
  rw [hc] at h
  exact h.1 (stripNewline_concat basename)

/-- A string without a newline and the same with one. -/
theorem unambiguous_newline (h : Unambiguous (nameBytes p len))
    (hno : 10 ∉ nameBytes p len)
    (hnl : nameBytes p' len' = nameBytes p len ++ [10]) :
    checkedKey ⟨some p', len'⟩ = checkedKey ⟨some p, len⟩ := by
  have hstrip : stripNewline (nameBytes p len) = nameBytes p len :=
    stripNewline_of_ne (fun hc => hno (List.mem_of_getLast? hc))
  have hstrip' : stripNewline (nameBytes p' len') = nameBytes p len := by
    rw [hnl, stripNewline_concat]
  have h' : Unambiguous (nameBytes p' len') := by
    unfold Unambiguous at h ⊢
    rwa [hstrip', ← hstrip]
  have hiff : PassesChecks (nameBytes p' len')
      ↔ PassesChecks (nameBytes p len) := by
    rw [unambiguous_passes h', unambiguous_passes h, hstrip, hstrip']
  rw [checkedKey_eq, checkedKey_eq, hstrip, hstrip']
  exact if_congr hiff rfl rfl

/-- A free table takes every name that passes the checks. -/
theorem create_empty (name : Name) :
    ((kucommsCharDeviceCreate name).atomic ⟨0, 0⟩
        (kucommsInit .blank)).1 = true
      ↔ (checkedKey name).isSome := by
  have hrefines : (RegistryOp.create name ⟨0, 0⟩).StepRefines
      (kucommsInit .blank) Directory.empty := step_create (Stores.init .blank)
  have hstep := hrefines.1
  have hroom : (∅ : Finset (List UInt8)).card < kucommsListSize := by decide
  simp only [RegistryOp.step, RegistryOp.dirOp] at hstep
  cases hk : checkedKey name with
  | none =>
    rw [hk] at hstep
    rw [Directory.Answer.done.inj hstep]
    exact ⟨fun hc => absurd hc (by decide), fun hc => absurd hc (by decide)⟩
  | some k =>
    rw [hk] at hstep
    have hyes : k ∉ (Directory.empty (V := Callbacks)).devices
        ∧ (Directory.empty (V := Callbacks) (K := List UInt8)).devices.card
          < kucommsListSize ∧ decide ((0 : ℤ) ≤ 0) = true :=
      ⟨Finset.notMem_empty k, hroom, by decide⟩
    simp only [Directory.step] at hstep
    rw [if_pos hyes] at hstep
    exact ⟨fun _ => rfl, fun _ => Directory.Answer.done.inj hstep⟩

/-- Every string that is short enough is what some pointer and length stand
for. -/
theorem exists_nameBytes {n : List UInt8} (hlt : n.length < 2 ^ 32) :
    ∃ p len, nameBytes p len = n := by
  have hlen : (UInt32.ofNat n.length).toNat = n.length :=
    Nat.mod_eq_of_lt hlt
  refine ⟨fun k => n.getD k 0, UInt32.ofNat n.length, ?_⟩
  rw [nameBytes, hlen]
  refine List.ext_getElem (by simp) (fun i hi hi' => ?_)
  rw [List.getElem_map, List.getElem_range, List.getD_eq_getElem?_getD,
    List.getElem?_eq_getElem hi', Option.getD_some]

/-- A string that is parsed by the grammar passes the checks with a newline
if it does without. -/
theorem parsed_newline (hparsed : ParsedByGrammar p len)
    (hno : 10 ∉ nameBytes p len)
    (hlt : (nameBytes p len).length + 1 < 2 ^ 32) :
    PassesChecks (nameBytes p len ++ [10]) ↔ PassesChecks (nameBytes p len) := by
  obtain ⟨p', len', hnl⟩ := exists_nameBytes (n := nameBytes p len ++ [10])
    (by rw [List.length_append]; exact hlt)
  have hsame := hparsed.newline hno p' len' hnl ⟨0, 0⟩ (kucommsInit .blank)
    (le_refl _) ⟨⟨0, by decide⟩, rfl⟩
  rw [← hnl, ← isSome_checkedKey, ← isSome_checkedKey, ← create_empty,
    ← create_empty, hsame.1]

/-- **The prefix alone** is a name with a newline, and none without. -/
theorem not_parsed_prefix (hpre : stripNewline (nameBytes p len) = basename) :
    ¬ ParsedByGrammar p len := by
  intro hparsed
  rcases stripNewline_cases (nameBytes p len) with hs | hs
  · rw [hpre] at hs
    have hiff := parsed_newline hparsed (by rw [← hs]; decide)
      (by rw [← hs]; decide)
    rw [← hs] at hiff
    exact absurd (hiff.mp (by decide +kernel)) (by decide)
  · have hcreate := hparsed.create
    rw [create_goesOn, isSome_checkedKey, hpre, hs, hpre] at hcreate
    exact absurd (deviceName_iff.mp (hcreate.mp (by decide +kernel))).1.1
      (by decide)

/-- **A name of 63 characters** is one without a newline, and not with one. -/
theorem not_parsed_long (hname : DeviceName (stripNewline (nameBytes p len)))
    (hlong : (stripNewline (nameBytes p len)).length = 63) :
    ¬ ParsedByGrammar p len := by
  intro hparsed
  have hcreate := hparsed.create
  rw [create_goesOn, isSome_checkedKey] at hcreate
  have hpass := hcreate.mpr hname
  rcases stripNewline_cases (nameBytes p len) with hs | hs
  · rw [hs] at hname hlong
    have hno : 10 ∉ nameBytes p len := fun hc =>
      absurd ((deviceName_iff.mp hname).2.2 10 hc) (by decide)
    have hiff := parsed_newline hparsed hno (by omega)
    have hlen := (hiff.mpr hpass).1.2
    rw [List.length_append, List.length_singleton] at hlen
    omega
  · have hlen := hpass.1.2
    rw [hs, List.length_append, List.length_singleton] at hlen
    omega

/-- **Exactly which strings are parsed by the grammar.** -/
theorem parsedByGrammar_iff :
    ParsedByGrammar p len ↔ Unambiguous (nameBytes p len) := by
  constructor
  · intro hparsed
    exact ⟨fun hpre => not_parsed_prefix hpre hparsed,
      fun hlong => not_parsed_long hlong.1 hlong.2 hparsed⟩
  · intro h
    have hpass := unambiguous_passes h
    refine ⟨?_, ?_, fun hno p' len' hnl env r _ _ => ?_⟩
    · rw [create_goesOn, isSome_checkedKey, hpass]
    · rw [remove_goesOn, isSome_checkedKey, hpass]
    · have hkeys := unambiguous_newline h hno hnl
      exact ⟨create_congr hkeys env r, remove_congr hkeys env r⟩

end Parsed

/-! ## The names that are stored -/

/-- A name with at least one character behind the prefix. -/
def Suffixed (n : List UInt8) : Prop :=
  ∃ suffix, n = basename ++ suffix ∧ suffix ≠ []

/-- A call that creates a device does so with a string to which the newline
makes no difference. -/
def RegistryOp.NameUnambiguous : RegistryOp → Prop
  | .create ⟨some p, len⟩ _ => Unambiguous (nameBytes p len)
  | _ => True

/-- The names that are created. -/
theorem suffixed_of_create {name : Name} {env : ChrdevAnswer} {k : List UInt8}
    (hop : (RegistryOp.create name env).NameUnambiguous)
    (hk : checkedKey name = some k) : Suffixed k := by
  obtain ⟨ptr, len⟩ := name
  cases ptr with
  | none => exact nomatch hk
  | some p =>
    rw [checkedKey_eq] at hk
    split at hk
    · next hpass =>
      obtain ⟨suffix, hsuffix, hne, -⟩ := (unambiguous_passes hop).mp hpass
      exact ⟨suffix, (Option.some.inj hk).symm.trans hsuffix, hne⟩
    · exact nomatch hk

/-- **A step** adds no name to the directory but one that is created. -/
theorem devices_step {op : Directory.Op (List UInt8) Callbacks}
    {d : Directory (List UInt8) Callbacks} {k : List UInt8}
    (hk : k ∈ (Directory.step kucommsListSize op d).2.devices) :
    k ∈ d.devices ∨ ∃ available, op = .create (some k) available := by
  revert hk
  fun_cases Directory.step kucommsListSize op d with
  | case1 key available =>
    intro hk
    rcases Finset.mem_insert.mp hk with rfl | hk
    · exact .inr ⟨available, rfl⟩
    · exact .inl hk
  | case3 key =>
    intro hk
    exact .inl (Finset.mem_of_mem_erase hk)
  | _ =>
    intro hk
    exact .inl hk

/-- **Every name that is stored** has a character behind the prefix, in a run
in which the strings that are created are unambiguous. -/
theorem stored_suffixed (r : Registry) {ops : List RegistryOp}
    (hops : ∀ op ∈ ops, op.NameUnambiguous) {u : Fin kucommsListSize}
    {k : List UInt8}
    (hu : (Object.run RegistryOp.step ops (kucommsInit r)).2.slotKeys
      .devlist u = some k) : Suffixed k := by
  have hstep : Object.Refines RegistryOp.step
      (fun op => Directory.step kucommsListSize op.dirOp)
      RegistryOp.NameUnambiguous
      (fun r d => Stores r d ∧ ∀ k ∈ d.devices, Suffixed k) := by
    intro op r d hop h
    have href := op.step_refines h.1
    refine ⟨href.1, href.2, fun k hk => ?_⟩
    rcases devices_step hk with hk | ⟨available, hdir⟩
    · exact h.2 k hk
    · cases op with
      | create name env =>
        exact suffixed_of_create hop (Directory.Op.create.inj hdir).1
      | _ => exact nomatch hdir
  have hrun := (hstep.run hops ⟨Stores.init r, fun k hk =>
    absurd hk (Finset.notMem_empty k)⟩).2
  refine hrun.2 k ?_
  rw [← hrun.1.devices]
  exact SlotTable.mem_keys.mpr ⟨u, hu⟩

/-- **Exactly when one grammar parses the names**, and what is stored if it
does. -/
theorem parsed_by_grammar_iff (p : Bytes) (len : UInt32) (r : Registry)
    (ops : List RegistryOp) :
    (ParsedByGrammar p len ↔ Unambiguous (nameBytes p len))
    ∧ ((∀ op ∈ ops, op.NameUnambiguous) → ∀ (u : Fin kucommsListSize)
        (k : List UInt8),
      (Object.run RegistryOp.step ops (kucommsInit r)).2.slotKeys .devlist u
        = some k → Suffixed k) :=
  ⟨parsedByGrammar_iff, fun hops _ _ hu => stored_suffixed r hops hu⟩

/-- **The prefix and a newline** pass the checks. -/
theorem prefix_not_parsed :
    ¬ ParsedByGrammar (fun k => (basename ++ [10]).getD k 0) 9 :=
  not_parsed_prefix (by decide)
