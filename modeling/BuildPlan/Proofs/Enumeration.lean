import BuildPlan.Proofs.Bytes
import BuildPlan.Proofs.Growth
import Mathlib.Data.List.Nodup
import Mathlib.Data.List.Perm.Basic
import Mathlib.Data.String.Basic

/-!
# Listings in order

A directory lists what is in it once and in the order of the names' bytes. That is the order of their
characters as well, since the UTF-8 form of a greater character is greater at the first byte where
the forms differ (`toUtf8_lt_toUtf8`). What a listing says does not depend on the order in which a
tree has its items, and neither does anything that is found by it (`Rearranged`).
-/

namespace BuildPlan

/-! ## The order of bytes -/

namespace Text

/-- The UTF-8 forms of two characters differ within both, and the greater one has the greater byte
there. -/
theorem utf8EncodeChar_append_lt {c d : Char} (h : c < d) (s t : List UInt8) :
    String.utf8EncodeChar c ++ s < String.utf8EncodeChar d ++ t := by
  have hlt : c.val.toNat < d.val.toNat := h
  have hd : d.val.toNat < 0x110000 := by rcases d.valid with hd | hd <;> omega
  -- the bytes as numbers, and the digits to the base 64 that they hold
  have hnext : ∀ n : Nat, (n % 64 + 128) % 2 ^ 8 = n % 64 + 128 := by omega
  have hfirst₂ : ∀ n : Nat, (n % 32 + 192) % 2 ^ 8 = n % 32 + 192 := by omega
  have hfirst₃ : ∀ n : Nat, (n % 16 + 224) % 2 ^ 8 = n % 16 + 224 := by omega
  have hfirst₄ : ∀ n : Nat, (n % 8 + 240) % 2 ^ 8 = n % 8 + 240 := by omega
  have hdigit₃ : ∀ n : Nat, n / 4096 = n / 64 / 64 := by omega
  have hdigit₄ : ∀ n : Nat, n / 262144 = n / 64 / 64 / 64 := by omega
  rw [String.utf8EncodeChar, String.utf8EncodeChar]
  generalize c.val.toNat = v at *
  generalize d.val.toNat = w at *
  by_cases hst : s < t <;> split_ifs <;>
    simp only [List.cons_append, List.nil_append, List.cons_lt_cons_iff, UInt8.lt_iff_toNat_lt,
      ← UInt8.toNat_inj, UInt8.toNat_ofNat', hnext, hfirst₂, hfirst₃, hfirst₄, hdigit₃, hdigit₄,
      hst, and_true, and_false, or_false] <;>
    omega

theorem toUtf8_lt_toUtf8 {s t : String} (h : s < t) : toUtf8 s < toUtf8 t := by
  rw [← String.ofList_toList (s := s), ← String.ofList_toList (s := t), toUtf8_ofList,
    toUtf8_ofList]
  have hchars : s.toList < t.toList := String.lt_iff_toList_lt.mp h
  generalize s.toList = cs at hchars ⊢
  generalize t.toList = ds at hchars ⊢
  induction hchars with
  | @nil d ds =>
    obtain ⟨b, bs, hbs⟩ := List.exists_cons_of_ne_nil (String.utf8EncodeChar_ne_nil (c := d))
    rw [List.flatMap_nil, List.flatMap_cons, hbs]
    exact List.nil_lt_cons b _
  | rel hchar => exact utf8EncodeChar_append_lt hchar _ _
  | cons _ ih => exact List.append_left_lt ih

/-- The order of names by their bytes. -/
def Bytewise (a b : String) : Prop :=
  toUtf8 a < toUtf8 b

end Text

/-- The items that have a property, each once, in ascending order. -/
structure Enumerates {α : Type} (before : α → α → Prop) (items : List α) (holds : α → Prop) :
    Prop where
  ascending : items.Pairwise before
  mem_iff : ∀ a, a ∈ items ↔ holds a

theorem Enumerates.filter {α : Type} {before : α → α → Prop} {items : List α} {holds : α → Prop}
    (h : Enumerates before items holds) (keep : α → Bool) :
    Enumerates before (items.filter keep) fun a => holds a ∧ keep a = true where
  ascending := h.ascending.filter keep
  mem_iff a := by rw [List.mem_filter, h.mem_iff]

theorem Enumerates.map {α β : Type} {before : β → β → Prop} {f : α → β} {items : List α}
    {holds : α → Prop} (h : Enumerates (fun a b => before (f a) (f b)) items holds) :
    Enumerates before (items.map f) fun b => ∃ a, holds a ∧ f a = b where
  ascending := List.pairwise_map.mpr h.ascending
  mem_iff b := by simp only [List.mem_map, h.mem_iff]

theorem Enumerates.tail {α : Type} {before : α → α → Prop} {first : α} {items : List α}
    {holds : α → Prop} (h : Enumerates before (first :: items) holds)
    (hirrefl : ¬ before first first) : Enumerates before items fun a => a ≠ first ∧ holds a where
  ascending := (List.pairwise_cons.mp h.ascending).2
  mem_iff a := by
    have hfirst := (List.pairwise_cons.mp h.ascending).1
    rw [← h.mem_iff a, List.mem_cons]
    constructor
    · exact fun ha => ⟨fun hsame => hirrefl (hsame ▸ hfirst a ha), .inr ha⟩
    · exact fun ⟨hne, ha⟩ => ha.resolve_left hne

theorem Enumerates.congr {α : Type} {before : α → α → Prop} {items : List α}
    {holds holds' : α → Prop} (h : Enumerates before items holds)
    (hiff : ∀ a, holds a ↔ holds' a) : Enumerates before items holds' where
  ascending := h.ascending
  mem_iff a := (h.mem_iff a).trans (hiff a)

namespace FileTree

variable {t t' : FileTree}

/-- Every location stands once in the list of the tree. -/
def Distinct (t : FileTree) : Prop :=
  (t.items.map (·.1)).Nodup

instance (t : FileTree) : Decidable t.Distinct :=
  inferInstanceAs (Decidable (List.Nodup _))

theorem nodup_children (ht : t.Distinct) (loc : Location) : (t.children loc).Nodup := by
  have hmap : t.items.filterMap (fun item => childName? loc item.1) =
      (t.items.map (·.1)).filterMap (childName? loc) := by
    rw [List.filterMap_map]
    rfl
  rw [children, sortNames, (List.mergeSort_perm _ _).nodup_iff, hmap]
  refine List.Nodup.filterMap (fun other other' name h h' => ?_) ht
  rw [Option.mem_def, childName?_eq_some_iff] at h h'
  rw [h, h']

theorem at?_eq_some_iff (ht : t.Distinct) {loc : Location} (hne : loc ≠ []) {item : Item} :
    t.at? loc = some item ↔ (loc, item) ∈ t.items := by
  have hat : t.at? loc = (t.items.find? (·.1 == loc)).map (·.2) := by
    obtain ⟨first, rest, rfl⟩ := List.exists_cons_of_ne_nil hne
    rfl
  have hloc {found : Location × Item} (h : t.items.find? (·.1 == loc) = some found) :
      found.1 = loc := by simpa using List.find?_some h
  rw [hat, Option.map_eq_some_iff]
  constructor
  · rintro ⟨found, hfound, rfl⟩
    rw [← hloc hfound]
    exact List.mem_of_find?_eq_some hfound
  · intro hmem
    have hsome : (t.items.find? (·.1 == loc)).isSome :=
      List.find?_isSome.mpr ⟨(loc, item), hmem, beq_self_eq_true loc⟩
    obtain ⟨found, hfound⟩ := Option.isSome_iff_exists.mp hsome
    have hsame := List.inj_on_of_nodup_map ht (List.mem_of_find?_eq_some hfound) hmem
      (hloc hfound)
    exact ⟨found, hfound, congrArg Prod.snd hsame⟩

theorem mem_children_iff_isSome {loc : Location} {name : String} :
    name ∈ t.children loc ↔ (t.at? (loc ++ [name])).isSome := by
  refine ⟨at?_of_mem_children, fun h => ?_⟩
  obtain ⟨first, rest, hcons⟩ := List.exists_cons_of_ne_nil (List.concat_ne_nil name loc)
  rw [mem_children_iff]
  rw [hcons, at?, Option.isSome_map, List.find?_isSome] at h
  obtain ⟨item, hmem, hloc⟩ := h
  exact ⟨item, hmem, (beq_iff_eq.mp hloc).trans hcons.symm⟩

/-- **A directory lists what is in it**, each name once and in the order of the bytes. -/
theorem enumerates_children (ht : t.Distinct) (loc : Location) :
    Enumerates Text.Bytewise (t.children loc) fun name => (t.at? (loc ++ [name])).isSome := by
  refine ⟨?_, fun name => mem_children_iff_isSome⟩
  refine ((pairwise_sortNames _).and (nodup_children ht loc)).imp fun h => ?_
  exact Text.toUtf8_lt_toUtf8 (lt_of_le_of_ne (not_lt.mp h.1) h.2)

/-! ## Items in another order -/

/-- The second tree has the same items, in whatever order. -/
structure Rearranged (t t' : FileTree) : Prop where
  cwd : t'.cwd = t.cwd
  items : t'.items.Perm t.items

namespace Rearranged

theorem distinct (h : Rearranged t t') (ht : t.Distinct) : t'.Distinct :=
  (h.items.map _).nodup_iff.mpr ht

theorem at?_eq (h : Rearranged t t') (ht : t.Distinct) : t'.at? = t.at? := by
  funext loc
  by_cases hne : loc = []
  · rw [hne]
    rfl
  · ext item
    rw [at?_eq_some_iff (h.distinct ht) hne, at?_eq_some_iff ht hne, h.items.mem_iff]

theorem children_eq (h : Rearranged t t') : t'.children = t.children := by
  funext loc
  exact eq_sortNames (pairwise_sortNames _)
    ((List.mergeSort_perm _ _).trans (h.items.filterMap _))

theorem stepsTo_eq (h : Rearranged t t') (ht : t.Distinct) (loc : Location)
    (parts : List (List Char)) : t'.stepsTo loc parts = t.stepsTo loc parts := by
  have hstep (loc : Location) (part : List Char) : t'.stepTo loc part = t.stepTo loc part := by
    rw [stepTo, stepTo, hasDirectory, hasDirectory, h.at?_eq ht]
  induction parts generalizing loc with
  | nil => rfl
  | cons part rest ih => simp only [stepsTo, hstep, ih]

theorem lookup_eq (h : Rearranged t t') (ht : t.Distinct) (path : String) :
    t'.lookup path = t.lookup path := by
  rw [lookup, lookup, start, start, h.cwd, h.stepsTo_eq ht, h.at?_eq ht]

theorem isDirectory_eq (h : Rearranged t t') (ht : t.Distinct) (path : String) :
    t'.isDirectory path = t.isDirectory path := by
  rw [isDirectory, isDirectory, h.lookup_eq ht]

theorem readText_eq (h : Rearranged t t') (ht : t.Distinct) (path : String) :
    t'.readText path = t.readText path := by
  rw [readText, readText, read, read, h.lookup_eq ht]

theorem fileNames_eq (h : Rearranged t t') (ht : t.Distinct) (path : String) :
    t'.fileNames path = t.fileNames path := by
  rw [fileNames, fileNames, h.lookup_eq ht, h.children_eq, h.at?_eq ht]

theorem depthBound_eq (h : Rearranged t t') : t'.depthBound = t.depthBound := by
  rw [depthBound, depthBound, (h.items.map _).foldr_eq]

theorem walkFrom_eq (h : Rearranged t t') (ht : t.Distinct) (depth : Nat) (path : String)
    (loc : Location) : t'.walkFrom depth path loc = t.walkFrom depth path loc := by
  induction depth generalizing path loc with
  | zero => rfl
  | succ depth ih => simp only [walkFrom, h.at?_eq ht, h.children_eq, ih]

theorem walk_eq (h : Rearranged t t') (ht : t.Distinct) (path : String) :
    t'.walk path = t.walk path := by
  simp only [walk, h.lookup_eq ht, h.depthBound_eq, h.walkFrom_eq ht]

end Rearranged

end FileTree

end BuildPlan
