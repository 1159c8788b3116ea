import BuildPlan.Files.Write
import BuildPlan.Proofs.Lookup

/-!
# Names of what is written

Whatever is written, the names in a tree stay names (`WellNamed.update`): a new item has a proper
name, and the directory that it is put in stands there already.
-/

namespace BuildPlan.FileTree

open BuildPlan.Path (IsName isIdle)

variable {t t' : FileTree} {path : String} {loc : Location}

theorem WellNamed.at? (ht : t.WellNamed) (h : (t.at? loc).isSome) :
    ∀ name ∈ loc, IsName name ∧ Text.utf8Length name ≤ nameLimit := by
  cases loc with
  | nil => simp
  | cons top rest =>
    rw [FileTree.at?, Option.isSome_map, List.find?_isSome] at h
    obtain ⟨item, hitem, hloc⟩ := h
    rw [← eq_of_beq hloc]
    exact ht item hitem

theorem WellNamed.put (ht : t.WellNamed)
    (hloc : ∀ name ∈ loc, IsName name ∧ Text.utf8Length name ≤ nameLimit) (item : Item) :
    (t.put loc item).WellNamed := by
  intro other hother
  rcases List.mem_append.mp hother with hother | hother
  · exact ht other (List.mem_filter.mp hother).1
  · obtain rfl := List.mem_singleton.mp hother
    exact hloc

theorem lastPart?_eq_some {before : List (List Char)} {part : List Char}
    (h : lastPart? path = some (before, part)) : part ≠ [] ∧ '/' ∉ part := by
  rw [lastPart?] at h
  split at h
  · cases h
  · rename_i last front hlast
    obtain ⟨-, rfl⟩ := Prod.mk.inj (Option.some.inj h)
    constructor
    · have hhead := List.head?_dropWhile_not (· == []) (Text.split '/' path.toList).reverse
      rw [hlast] at hhead
      simpa using hhead
    · have hmem : last ∈ (Text.split '/' path.toList).reverse :=
        (List.dropWhile_suffix _).subset (hlast ▸ List.mem_cons_self)
      exact Text.notMem_of_mem_split (List.mem_reverse.mp hmem)

theorem place_eq_ok {dir : Location} {part : List Char}
    (h : t.place path = .ok (dir, some part)) :
    (t.at? dir).isSome ∧ part ≠ [] ∧ '/' ∉ part := by
  rw [place] at h
  split at h
  · cases h
  · split at h
    · cases h
    · rename_i hlast
      split at h
      · cases h
      · split_ifs at h with hdir
        obtain ⟨rfl, hpart⟩ := Prod.mk.inj (Except.ok.inj h)
        obtain rfl := Option.some.inj hpart
        rw [hasDirectory, beq_iff_eq] at hdir
        exact ⟨by rw [hdir]; rfl, lastPart?_eq_some hlast⟩

theorem isName_ofList {part : List Char} (hne : part ≠ []) (hslash : '/' ∉ part)
    (h : isItemName part = true) : IsName (String.ofList part) := by
  simp only [isItemName, Bool.and_eq_true, bne_iff_ne] at h
  rw [IsName, String.toList_ofList]
  exact ⟨by simp [isIdle, hne, h.1], h.2, hslash⟩

theorem WellNamed.put_place (ht : t.WellNamed) {dir : Location} {part : List Char}
    (hplace : t.place path = .ok (dir, some part)) (hname : isItemName part = true)
    (hshort : Text.utf8Length (String.ofList part) ≤ nameLimit) (item : Item) :
    (t.put (dir ++ [String.ofList part]) item).WellNamed := by
  obtain ⟨hdir, hne, hslash⟩ := place_eq_ok hplace
  refine ht.put ?_ item
  intro name hmem
  rcases List.mem_append.mp hmem with hmem | hmem
  · exact ht.at? hdir name hmem
  · obtain rfl := List.mem_singleton.mp hmem
    exact ⟨isName_ofList hne hslash hname, hshort⟩

theorem WellNamed.makeDirectory (ht : t.WellNamed) (h : t.makeDirectory path = .ok t') :
    t'.WellNamed := by
  rw [FileTree.makeDirectory] at h
  split at h
  · cases h
  · cases h
  · rename_i hplace
    dsimp only at h
    split_ifs at h with hname hshort
    obtain rfl := Except.ok.inj h
    exact ht.put_place hplace (by simpa using hname) (Nat.not_lt.mp hshort) _

theorem WellNamed.makeDirectoriesFrom (ht : t.WellNamed) (fuel : Nat) (path : String) :
    (t.makeDirectoriesFrom fuel path).1.WellNamed := by
  induction fuel generalizing t path with
  | zero => exact ht
  | succ fuel ih =>
    rw [FileTree.makeDirectoriesFrom]
    split
    · exact ht
    · split
      · rename_i hmade
        exact ht.makeDirectory hmade
      · split
        · exact ht
        · rename_i parent _
          have hparent := ih ht parent
          split
          · rename_i hfailed
            rwa [hfailed] at hparent
          · rename_i hmade
            rw [hmade] at hparent
            split
            · rename_i hmade'
              exact hparent.makeDirectory hmade'
            · split_ifs <;> exact hparent
      · split_ifs <;> exact ht

theorem WellNamed.persist {data : Bytes} (ht : t.WellNamed) (h : t.persist path data = .ok t') :
    t'.WellNamed := by
  rw [FileTree.persist] at h
  split at h
  · cases h
  · cases h
  · rename_i hplace
    dsimp only at h
    split_ifs at h with hname hshort
    obtain rfl := Except.ok.inj h
    exact ht.put_place hplace (by simpa using hname) (Nat.not_lt.mp hshort) _

theorem WellNamed.store (ht : t.WellNamed) (path : String) (data : Bytes) :
    (t.store path data).1.WellNamed := by
  have hdirs := ht.makeDirectoriesFrom ((directoryOf path).length + 1) (directoryOf path)
  rw [FileTree.store, FileTree.makeDirectories]
  split
  · rename_i hfailed
    rwa [hfailed] at hdirs
  · rename_i hmade
    rw [hmade] at hdirs
    split
    · rename_i hstored
      exact hdirs.persist hstored
    · exact hdirs

/-- **Writing keeps names proper**, whether it succeeds or not. -/
theorem WellNamed.update (ht : t.WellNamed) (path : String) (data : Bytes) :
    (t.update path data).1.WellNamed := by
  have hstored := ht.store path data
  rw [FileTree.update]
  split
  · split_ifs
    · exact ht
    · split <;> rename_i hstore <;> rwa [hstore] at hstored
  · split <;> rename_i hstore <;> rwa [hstore] at hstored
  · exact ht

end BuildPlan.FileTree
