import CanonicalPath.FS.Shared

/-!
# Handles — the handles of a process that are open

* `openHandles` : in the order of their opening
* `openHandles_concat`, `openHandles_close_of_eq` : what opening and closing a handle does to them
* `objects_close` : a handle stays with its object
-/

namespace CanonicalPath

namespace FS

namespace Shared

def openHandles (handles : List Handle) : List Nat :=
  (List.range handles.length).filter fun handle => handles[handle]?.map Handle.closed = some false

section

variable {handles : List Handle} {handle id : Nat}

theorem mem_openHandles : handle ∈ openHandles handles ↔ ∃ id, handles[handle]? = some ⟨id, false⟩ := by
  rw [openHandles, List.mem_filter, List.mem_range, decide_eq_true_eq, Option.map_eq_some_iff]
  constructor
  · rintro ⟨-, ⟨id, closed⟩, hopen, rfl⟩
    exact ⟨id, hopen⟩
  · rintro ⟨id, hopen⟩
    exact ⟨(List.getElem?_eq_some_iff.1 hopen).1, ⟨id, false⟩, hopen, rfl⟩

theorem openHandles_concat (handles : List Handle) (id : Nat) :
    openHandles (handles ++ [⟨id, false⟩]) = openHandles handles ++ [handles.length] := by
  have hlast : (handles ++ [⟨id, false⟩])[handles.length]? = some (⟨id, false⟩ : Handle) := by
    rw [List.getElem?_append_right (Nat.le_refl _), Nat.sub_self]
    rfl
  have hold : ∀ handle ∈ List.range handles.length,
      (handles ++ [(⟨id, false⟩ : Handle)])[handle]? = handles[handle]? := by
    intro handle hhandle
    exact List.getElem?_append_left (List.mem_range.1 hhandle)
  rw [openHandles, List.length_append, List.length_singleton, List.range_succ, List.filter_append]
  congr 1
  · apply List.filter_congr
    intro handle hhandle
    rw [hold handle hhandle]
  · rw [List.filter_singleton, hlast]
    rfl

theorem openHandles_close (handles : List Handle) (handle : Nat) :
    openHandles (handles.modify handle fun opened => { opened with closed := true }) =
      (openHandles handles).filter (· ≠ handle) := by
  rw [openHandles, openHandles, List.length_modify, List.filter_filter]
  apply List.filter_congr
  intro other hother
  rw [List.getElem?_modify]
  by_cases hsame : handle = other
  · subst hsame
    simp
  · have hother : other ≠ handle := fun h => hsame h.symm
    simp [hsame, hother]

theorem nodup_openHandles (handles : List Handle) : (openHandles handles).Nodup :=
  List.nodup_range.filter _

theorem openHandles_close_of_eq {before after : List Nat} (h : openHandles handles = before ++ handle :: after) :
    openHandles (handles.modify handle fun opened => { opened with closed := true }) = before ++ after := by
  have hnodup := nodup_openHandles handles
  rw [h] at hnodup
  calc openHandles (handles.modify handle fun opened => { opened with closed := true })
      = (before ++ handle :: after).filter (· ≠ handle) := by rw [openHandles_close, h]
    _ = (before ++ handle :: after).filter (· != handle) :=
        List.filter_congr fun other _ => by rw [Bool.eq_iff_iff, decide_eq_true_iff, bne_iff_ne]
    _ = (before ++ handle :: after).erase handle := (hnodup.erase_eq_filter handle).symm
    _ = before ++ (handle :: after).erase handle :=
        List.erase_append_right _ fun hmem => List.disjoint_of_nodup_append hnodup hmem (List.mem_cons_self ..)
    _ = before ++ after := by rw [List.erase_cons_head]

end

def objects (handles : List Handle) : List Nat :=
  handles.map Handle.object

theorem objects_concat (handles : List Handle) (id : Nat) : objects (handles ++ [⟨id, false⟩]) = objects handles ++ [id] :=
  List.map_append

theorem objects_close (handles : List Handle) (handle : Nat) :
    objects (handles.modify handle fun opened => { opened with closed := true }) = objects handles := by
  apply List.ext_getElem?
  intro other
  rw [objects, objects, List.getElem?_map, List.getElem?_map, List.getElem?_modify, Option.map_eq_map, Option.map_map]
  congr 1
  funext opened
  by_cases hsame : handle = other
  · simp [hsame]
  · simp [hsame]

end Shared

end FS

end CanonicalPath
