import Styrolite.Spec.RerootCorrect

/-!
# Joining a container path to its root directory

`join_rootfs` trims the slashes at the seam and puts one there. Whatever slashes the
two paths have, it appends their components, and a path that is joined in two steps
comes out as the same string as one that is joined in the other order
(`joinRootfs_correct`). The argument is `Fields.join`'s.
-/

namespace Styrolite

open Fields

/-- So many slashes in a row. -/
def slashes (n : Nat) : String := String.ofList (List.replicate n '/')

/-- The string has one slash at the seam: in front of it and behind it are the two paths, without
    the slashes that they have there. -/
def OneSlash (s rootfs path : String) : Prop :=
  ∃ front back, s = front ++ "/" ++ back ∧
    (∃ m, rootfs = front ++ slashes m) ∧ front.toList.getLast? ≠ some '/' ∧
    (∃ n, path = slashes n ++ back) ∧ back.toList.head? ≠ some '/'

theorem joinRootfs_slashes (rootfs path : String) (m n : Nat) :
    joinRootfs (rootfs ++ slashes m) (slashes n ++ path) = joinRootfs rootfs path := by
  apply String.toList_inj.1
  simp only [toList_joinRootfs, slashes, String.toList_append, String.toList_ofList, join_replicate]

theorem joinRootfs_assoc (rootfs a b : String) :
    joinRootfs (joinRootfs rootfs a) b = joinRootfs rootfs (joinRootfs a b) := by
  apply String.toList_inj.1
  simp only [toList_joinRootfs, join_assoc]

theorem joinRootfs_oneSlash (rootfs path : String) :
    OneSlash (joinRootfs rootfs path) rootfs path := by
  refine ⟨trimEndSlashes rootfs, trimStartSlashes path, rfl, ?_, ?_, ?_, ?_⟩
  · obtain ⟨m, hm⟩ := exists_append_replicate '/' rootfs.toList
    refine ⟨m, String.toList_inj.1 ?_⟩
    rw [String.toList_append, slashes, String.toList_ofList, trimEndSlashes, String.toList_ofList]
    exact hm
  · rw [trimEndSlashes, String.toList_ofList]
    exact getLast?_rdropWhile_ne '/' rootfs.toList
  · obtain ⟨n, hn⟩ := exists_replicate_append '/' path.toList
    refine ⟨n, String.toList_inj.1 ?_⟩
    rw [String.toList_append, slashes, String.toList_ofList, trimStartSlashes, String.toList_ofList]
    exact hn
  · rw [trimStartSlashes, String.toList_ofList]
    exact head?_dropWhile_ne '/' path.toList

/-- `join_rootfs` appends the components, has one slash at the seam whatever slashes are there, and
    nests. -/
theorem joinRootfs_correct (rootfs a b : String) :
    components (joinRootfs rootfs a) = components rootfs ++ components a ∧
    (∀ m n, joinRootfs (rootfs ++ slashes m) (slashes n ++ a) = joinRootfs rootfs a) ∧
    OneSlash (joinRootfs rootfs a) rootfs a ∧
    joinRootfs (joinRootfs rootfs a) b = joinRootfs rootfs (joinRootfs a b) :=
  ⟨components_joinRootfs rootfs a, joinRootfs_slashes rootfs a, joinRootfs_oneSlash rootfs a,
    joinRootfs_assoc rootfs a b⟩

example : joinRootfs "//run//root/" "//proc//" = "//run//root/proc//" := by decide

end Styrolite
