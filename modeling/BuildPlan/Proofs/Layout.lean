import BuildPlan.Pack.Headers
import Mathlib.Algebra.GroupWithZero.Nat
import Mathlib.Data.List.Induction
import Mathlib.Data.List.TakeWhile
import Mathlib.Tactic.SplitIfs

/-!
# The layout of packed headers

Headers are laid end to end, each with a NUL behind it, and an entry says where its header starts.
A look-up reads on from there up to a NUL, through whatever follows; as every header is closed by a
NUL of its own, it never comes to the next one (`get?_pushAll_eq`). So the table and the bytes of
headers that are pushed one after another are known exactly, and so is what each look-up gives
(`layout_pushed`).
-/

namespace BuildPlan.PackedHeaders

variable {h : PackedHeaders}

/-! ## Bytes up to a NUL -/

theorem untilNul_append {bytes : Bytes} (hnul : 0 ∈ bytes) (more : Bytes) :
    untilNul (bytes ++ more) = untilNul bytes := by
  induction bytes with
  | nil => cases hnul
  | cons b bytes ih =>
    rw [untilNul, untilNul, List.cons_append, List.takeWhile_cons, List.takeWhile_cons]
    split_ifs with hb
    · have hrest : 0 ∈ bytes := by
        rcases List.mem_cons.mp hnul with rfl | hrest
        · exact absurd hb (by decide)
        · exact hrest
      exact congrArg _ (ih hrest)
    · rfl

theorem untilNul_of_notMem {bytes : Bytes} (hnul : 0 ∉ bytes) : untilNul bytes = bytes := by
  rw [untilNul, List.takeWhile_eq_self_iff]
  exact fun b hb => bne_iff_ne.mpr fun hzero => hnul (hzero ▸ hb)

theorem untilNul_concat (bytes : Bytes) : untilNul (bytes ++ [0]) = untilNul bytes := by
  by_cases hnul : 0 ∈ bytes
  · exact untilNul_append hnul [0]
  · have hall : ∀ b ∈ bytes, (b != 0) = true := fun b hb =>
      bne_iff_ne.mpr fun hzero => hnul (hzero ▸ hb)
    rw [untilNul_of_notMem hnul, untilNul, List.takeWhile_append_of_pos hall]
    exact List.append_nil _

/-- The longest run of bytes without a NUL that some contents start with. -/
def IsUntilNul (found contents : Bytes) : Prop :=
  found <+: contents ∧ 0 ∉ found ∧ ∀ other, other <+: contents → 0 ∉ other → other <+: found

theorem isUntilNul_untilNul (contents : Bytes) : IsUntilNul (untilNul contents) contents := by
  refine ⟨List.takeWhile_prefix _, fun hzero => ?_, fun other hother hnul => ?_⟩
  · exact absurd (List.mem_takeWhile_imp hzero) (by decide)
  · obtain ⟨rest, rfl⟩ := hother
    have hall : ∀ b ∈ other, (b != 0) = true := fun b hb =>
      bne_iff_ne.mpr fun hzero => hnul (hzero ▸ hb)
    rw [untilNul, List.takeWhile_append_of_pos hall]
    exact List.prefix_append _ _

/-! ## Look-ups -/

/-- What every entry holds is ended by a NUL, so that nothing behind it counts. -/
def Closed (h : PackedHeaders) : Prop :=
  ∀ e ∈ h.entries, 0 ∈ h.bytes.drop e.offset

theorem closed_empty : Closed {} := fun _ he => absurd he List.not_mem_nil

theorem Closed.push (hclosed : h.Closed) (path : String) (contents : Bytes) :
    (h.push path contents).Closed := by
  intro e he
  rw [PackedHeaders.push, List.append_assoc, List.drop_append]
  rcases List.mem_append.mp he with he | he
  · exact List.mem_append_left _ (hclosed e he)
  · obtain rfl := List.mem_singleton.mp he
    exact List.mem_append_right _ (by simp)

/-- A header that is pushed is found unless an earlier one has its name, and hides none. -/
theorem get?_push (hclosed : h.Closed) (path other : String) (contents : Bytes) :
    (h.push other contents).get? path =
      (h.get? path).or (if other = path then some (untilNul contents) else none) := by
  rw [get?, get?, push, List.find?_append]
  cases hfound : h.entries.find? (·.path == path) with
  | some found =>
    have hends := hclosed found (List.mem_of_find?_eq_some hfound)
    rw [Option.some_or, Option.map_some, Option.map_some, Option.some_or, List.append_assoc,
      List.drop_append, untilNul_append hends]
  | none =>
    rw [Option.none_or, Option.map_none, Option.none_or, List.find?_singleton]
    split_ifs with hpath hname hname
    · rw [Option.map_some, List.append_assoc, List.drop_left, untilNul_concat]
    · exact absurd (beq_iff_eq.mp hpath) hname
    · exact absurd (beq_iff_eq.mpr hname) hpath
    · rfl

def pushAll (h : PackedHeaders) (parts : List (String × Bytes)) : PackedHeaders :=
  parts.foldl (fun h part => h.push part.1 part.2) h

theorem pushAll_cons (h : PackedHeaders) (part : String × Bytes) (parts : List (String × Bytes)) :
    h.pushAll (part :: parts) = (h.push part.1 part.2).pushAll parts := rfl

theorem Closed.pushAll (hclosed : h.Closed) (parts : List (String × Bytes)) :
    (h.pushAll parts).Closed := by
  induction parts generalizing h with
  | nil => exact hclosed
  | cons part parts ih => exact ih (hclosed.push _ _)

/-- **A look-up gives what was pushed first under the name**, up to a NUL. -/
theorem get?_pushAll_eq (hclosed : h.Closed) (parts : List (String × Bytes)) (path : String) :
    (h.pushAll parts).get? path =
      (h.get? path).or ((parts.find? (·.1 == path)).map (untilNul ·.2)) := by
  induction parts generalizing h with
  | nil => exact (Option.or_none).symm
  | cons part parts ih =>
    rw [pushAll_cons, ih (hclosed.push _ _), get?_push hclosed, Option.or_assoc, List.find?_cons]
    split_ifs with hname
    · rw [beq_iff_eq.mpr hname, Option.map_some, Option.some_or]
    · rw [beq_eq_false_iff_ne.mpr hname, Option.none_or]

/-! ## Slices -/

/-- The bytes from one place up to another; none where there are not so many. -/
def slice? (bytes : Bytes) (start stop : Nat) : Option Bytes :=
  if start ≤ stop ∧ stop ≤ bytes.length then some ((bytes.take stop).drop start) else none

theorem slice?_of_append (before middle after : Bytes) :
    slice? (before ++ middle ++ after) before.length (before.length + middle.length) =
      some middle := by
  rw [slice?, if_pos (by simp), ← List.length_append, List.take_left, List.drop_left]

/-- The look-up with the bounds of its slices checked; none where a slice goes out of range. -/
def checkedGet? (h : PackedHeaders) (path : String) : Option (Option Bytes) :=
  match h.entries.find? (·.path == path) with
  | none => some none
  | some e => do
    let rest ← slice? h.bytes e.offset h.bytes.length
    let found ← slice? rest 0 (rest.findIdx (· == 0))
    return some found

theorem take_findIdx_nul (bytes : Bytes) : bytes.take (bytes.findIdx (· == 0)) = untilNul bytes := by
  induction bytes with
  | nil => rfl
  | cons b bytes ih =>
    rw [List.findIdx_cons, untilNul, List.takeWhile_cons]
    by_cases hb : b = 0
    · simp [hb]
    · rw [beq_eq_false_iff_ne.mpr hb, cond_false, List.take_succ_cons, ih, if_pos (bne_iff_ne.mpr hb),
        untilNul]

theorem checkedGet?_eq (hclosed : h.Closed) (path : String) :
    h.checkedGet? path = some (h.get? path) := by
  rw [checkedGet?, get?]
  cases hfound : h.entries.find? (·.path == path) with
  | none => rfl
  | some e =>
    have hends := hclosed e (List.mem_of_find?_eq_some hfound)
    have hinside : e.offset ≤ h.bytes.length := by
      rw [← Nat.not_lt]
      intro hlt
      rw [List.drop_eq_nil_of_le (Nat.le_of_lt hlt)] at hends
      cases hends
    have hrest : slice? h.bytes e.offset h.bytes.length = some (h.bytes.drop e.offset) := by
      rw [slice?, if_pos ⟨hinside, Nat.le_refl _⟩, List.take_length]
    have hstop : slice? (h.bytes.drop e.offset) 0 ((h.bytes.drop e.offset).findIdx (· == 0)) =
        some (untilNul (h.bytes.drop e.offset)) := by
      rw [slice?, if_pos ⟨Nat.zero_le _, List.findIdx_le_length⟩, List.drop_zero, take_findIdx_nul]
    simp [hrest, hstop]

/-! ## Tables and bytes -/

/-- Where the header with the given number starts: behind those before it, each with its NUL. -/
def offsetOf (parts : List (String × Bytes)) (i : Nat) : Nat :=
  ((parts.take i).map fun part => part.2.length + 1).sum

/-- Headers end to end, each with a NUL behind it. -/
def laidOut (parts : List (String × Bytes)) : Bytes :=
  parts.flatMap fun part => part.2 ++ [0]

theorem length_laidOut (parts : List (String × Bytes)) :
    (laidOut parts).length = (parts.map fun part => part.2.length + 1).sum := by
  rw [laidOut, List.length_flatMap]
  exact congrArg List.sum (List.map_congr_left fun part _ => by rw [List.length_append]; rfl)

theorem offsetOf_eq_length (parts : List (String × Bytes)) (i : Nat) :
    offsetOf parts i = (laidOut (parts.take i)).length := by
  rw [length_laidOut, offsetOf]

/-- What the table and the bytes are after the headers were pushed. -/
structure LaidOut (h : PackedHeaders) (parts : List (String × Bytes)) : Prop where
  entries : h.entries = parts.mapIdx fun i part => ⟨part.1, offsetOf parts i⟩
  bytes : h.bytes = laidOut parts

theorem LaidOut.push {parts : List (String × Bytes)} (hlaid : h.LaidOut parts)
    (part : String × Bytes) : (h.push part.1 part.2).LaidOut (parts ++ [part]) where
  entries := by
    have hearlier : parts.mapIdx (fun i p => (⟨p.1, offsetOf (parts ++ [part]) i⟩ : PackedEntry)) =
        h.entries := by
      rw [hlaid.entries, List.mapIdx_eq_mapIdx_iff]
      intro i hi
      rw [offsetOf, offsetOf, List.take_append_of_le_length (Nat.le_of_lt hi)]
    rw [List.mapIdx_concat, hearlier, PackedHeaders.push, hlaid.bytes, offsetOf_eq_length,
      List.take_left]
  bytes := by
    rw [PackedHeaders.push, hlaid.bytes, laidOut, laidOut, List.flatMap_append, List.flatMap_singleton,
      List.append_assoc]

theorem laidOut_pushAll (parts : List (String × Bytes)) : (pushAll {} parts).LaidOut parts := by
  induction parts using List.reverseRecOn with
  | nil => exact ⟨rfl, rfl⟩
  | append_singleton parts part ih =>
    rw [pushAll, List.foldl_append, ← pushAll]
    exact ih.push part

theorem offsetOf_lt {parts : List (String × Bytes)} {i j : Nat} (hij : i < j)
    (hi : i < parts.length) : offsetOf parts i < offsetOf parts j := by
  obtain ⟨k, rfl⟩ := Nat.exists_eq_add_of_lt hij
  rw [offsetOf, offsetOf, Nat.add_assoc, List.take_add, List.drop_eq_getElem_cons hi,
    List.take_succ_cons, List.map_append, List.sum_append, List.map_cons, List.sum_cons]
  omega

theorem LaidOut.pairwise_offset {parts : List (String × Bytes)} (hlaid : h.LaidOut parts) :
    (h.entries.map (·.offset)).Pairwise (· < ·) := by
  rw [hlaid.entries, List.pairwise_map, List.pairwise_iff_getElem]
  intro i j hi _ hij
  rw [List.length_mapIdx] at hi
  rw [List.getElem_mapIdx, List.getElem_mapIdx]
  exact offsetOf_lt hij hi

theorem LaidOut.slice? {parts : List (String × Bytes)} (hlaid : h.LaidOut parts) {i : Nat}
    {part : String × Bytes} (hpart : parts[i]? = some part) :
    slice? h.bytes (offsetOf parts i) (offsetOf parts i + (part.2.length + 1)) =
      some (part.2 ++ [0]) := by
  obtain ⟨hi, hpart⟩ := List.getElem?_eq_some_iff.mp hpart
  have hparts : parts = parts.take i ++ part :: parts.drop (i + 1) := by
    rw [← hpart, ← List.drop_eq_getElem_cons hi, List.take_append_drop]
  have hbytes : laidOut parts =
      laidOut (parts.take i) ++ (part.2 ++ [0]) ++ laidOut (parts.drop (i + 1)) := by
    conv_lhs => rw [hparts, laidOut, List.flatMap_append, List.flatMap_cons, ← List.append_assoc]
    rfl
  rw [hlaid.bytes, hbytes, offsetOf_eq_length]
  have hslice := slice?_of_append (laidOut (parts.take i)) (part.2 ++ [0])
    (laidOut (parts.drop (i + 1)))
  rwa [List.length_append, List.length_singleton] at hslice

/-- **The layout of pushed headers.** The entries name the headers in order, each with the place
where its bytes start, behind all earlier ones; the bytes are those of the headers, each with a NUL
behind it, and nothing else. A look-up takes no slice that goes out of range, and gives what was
pushed first under the name up to its first NUL, or nothing where nothing was. -/
theorem layout_pushed (parts : List (String × Bytes)) :
    (pushAll {} parts).entries =
        parts.mapIdx (fun i part => ⟨part.1, ((parts.take i).map fun p => p.2.length + 1).sum⟩) ∧
      ((pushAll {} parts).entries.map (·.offset)).Pairwise (· < ·) ∧
      (pushAll {} parts).bytes = parts.flatMap (fun part => part.2 ++ [0]) ∧
      (∀ (i : Nat) (part : String × Bytes), parts[i]? = some part →
        ∃ e, (pushAll {} parts).entries[i]? = some e ∧
        slice? (pushAll {} parts).bytes e.offset (e.offset + (part.2.length + 1)) =
          some (part.2 ++ [0])) ∧
      ∀ path : String, checkedGet? (pushAll {} parts) path = some ((pushAll {} parts).get? path) ∧
        match parts.find? (·.1 == path) with
        | none => (pushAll {} parts).get? path = none
        | some part => ∃ found, (pushAll {} parts).get? path = some found ∧
            IsUntilNul found part.2 := by
  have hlaid := laidOut_pushAll parts
  refine ⟨hlaid.entries, hlaid.pairwise_offset, hlaid.bytes, fun i part hpart => ?_, fun path => ?_⟩
  · refine ⟨⟨part.1, offsetOf parts i⟩, ?_, hlaid.slice? hpart⟩
    rw [hlaid.entries, List.getElem?_mapIdx, hpart, Option.map_some]
  · refine ⟨checkedGet?_eq (closed_empty.pushAll parts) path, ?_⟩
    rw [get?_pushAll_eq closed_empty]
    cases parts.find? (·.1 == path) with
    | none => rfl
    | some part => exact ⟨untilNul part.2, rfl, isUntilNul_untilNul part.2⟩

end BuildPlan.PackedHeaders
