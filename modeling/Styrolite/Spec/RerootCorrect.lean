import Styrolite.ForStd.Fields
import Styrolite.Native.Create
import Styrolite.Spec.Location

/-!
# Container paths under the root directory

Three pieces of code put a path of the container under its root directory: one
for the targets of mounts, `join_rootfs` for masked and read-only paths, and
`PathBuf::push` for the directories that mutations create. The first two treat
every path as one that starts at the container's root. The third does not: an
absolute path replaces the root directory, so a mutation with such a path
creates its directory on the host.

## Key results

- `rerooted_iff`: when the three agree
- `components_pathPush_iff`: when `PathBuf::push` puts a path under another
-/

namespace Styrolite

open Prog Fields

/-- The non-empty components of a path between separators. -/
def components (s : String) : List FileName := fields '/' s.toList

theorem components_append_slash (s t : String) :
    components (s ++ "/" ++ t) = components s ++ components t := by
  have hlist : (s ++ "/" ++ t).toList = s.toList ++ '/' :: t.toList := by simp
  rw [components, hlist, fields_append_cons]
  rfl

theorem toList_joinRootfs (rootfs path : String) :
    (joinRootfs rootfs path).toList = join '/' rootfs.toList path.toList := by
  simp only [joinRootfs, trimEndSlashes, trimStartSlashes, String.toList_append,
    String.toList_ofList, join, List.rdropWhile, List.append_assoc]
  rfl

/-- Masked and read-only paths. -/
theorem components_joinRootfs (rootfs path : String) :
    components (joinRootfs rootfs path) = components rootfs ++ components path := by
  rw [components, toList_joinRootfs, fields_join]
  rfl

/-- The targets of mounts. -/
theorem components_parentedMount (rootfs : String) (m : MountSpec) :
    components (CreateRequest.parentedMount rootfs m).target =
      components rootfs ++ components m.target :=
  components_append_slash rootfs m.target

theorem components_pathPush {path child : String} (hrel : ¬ IsAbsolute child) :
    components (pathPush path child) = components path ++ components child := by
  rw [pathPush_of_relative hrel]
  split
  · next hend =>
    rcases hend with hempty | hslash
    · obtain rfl : path = "" := String.toList_inj.1 hempty
      rw [String.empty_append]
      rfl
    · -- a separator is there already
      obtain ⟨front, hfront⟩ := List.getLast?_eq_some_iff.1 hslash
      have hlist : (path ++ child).toList = front ++ '/' :: child.toList := by simp [hfront]
      rw [components, components, components, hlist, hfront, fields_append_cons, fields_concat]
  · exact components_append_slash path child

/-- An absolute path replaces the one it is pushed onto. -/
theorem components_pathPush_iff {path child : String} :
    components (pathPush path child) = components path ++ components child ↔
      ¬ IsAbsolute child ∨ components path = [] := by
  by_cases habs : IsAbsolute child
  · have hpush : pathPush path child = child := if_pos habs
    rw [hpush, List.self_eq_append_left]
    exact ⟨.inr, fun h => h.resolve_left (not_not.2 habs)⟩
  · exact iff_of_true (components_pathPush habs) (.inl habs)

/-- Whatever uses the container path `p` uses the path of `p` under `rootfs`. -/
structure Rerooted (rootfs p : String) : Prop where
  mount : ∀ m : MountSpec, m.target = p →
    components (CreateRequest.parentedMount rootfs m).target = components rootfs ++ components p
  mask : ∀ path, (maskPath rootfs p).At [] (.fsSymlinkMetadata path) →
    components path = components rootfs ++ components p
  readonly : ∀ path, (makeReadonly rootfs p).At [] (.fsSymlinkMetadata path) →
    components path = components rootfs ++ components p
  createDir : ∀ path, (CreateDirMutation.mutate ⟨p⟩ rootfs).At [] (.fsCreateDirAll path) →
    components path = components rootfs ++ components p

/-- The first call of a program that begins with a call. -/
theorem at_nil_sys_bind {α : Type} {c d : Call} {k : c.Answer → Sys α} :
    (Bind.bind (α := no_index c.Answer) (sys c) k).At [] d ↔ d = c := by
  rw [at_sys_bind]
  constructor
  · rintro (⟨-, hd⟩ | ⟨a, h', heq, -⟩)
    · exact hd
    · cases heq
  · exact fun hd => .inl ⟨rfl, hd⟩

/-- A container path stands for one place whoever uses it, unless it is absolute and the root
    directory is not that of the host. -/
theorem rerooted_iff {rootfs p : String} :
    Rerooted rootfs p ↔ ¬ IsAbsolute p ∨ components rootfs = [] := by
  have hmutate : ∀ path, (CreateDirMutation.mutate ⟨p⟩ rootfs).At [] (.fsCreateDirAll path) ↔
      path = pathPush rootfs p := fun path => by
    rw [CreateDirMutation.mutate, at_nil_sys_bind, Call.fsCreateDirAll.injEq]
  have hjoin : ∀ path, Call.fsSymlinkMetadata path = .fsSymlinkMetadata (joinRootfs rootfs p) →
      components path = components rootfs ++ components p := by
    intro path heq
    rw [Call.fsSymlinkMetadata.inj heq, components_joinRootfs]
  rw [← components_pathPush_iff]
  constructor
  · exact fun hr => hr.createDir _ ((hmutate _).2 rfl)
  · intro hpush
    refine ⟨fun m hm => ?_, fun path hat => ?_, fun path hat => ?_, fun path hat => ?_⟩
    · rw [components_parentedMount, hm]
    · exact hjoin path (at_nil_sys_bind.1 hat)
    · exact hjoin path (at_nil_sys_bind.1 hat)
    · rw [(hmutate path).1 hat, hpush]

/-- A mutation that is to create `/data` in a container creates it on the host. -/
theorem not_rerooted_data : ¬ Rerooted "/srv/rootfs" "/data" := by
  intro hr
  have hpath : components "/data" = components "/srv/rootfs" ++ components "/data" :=
    hr.createDir "/data" (at_nil_sys_bind.2 (by decide))
  exact absurd hpath (by decide)

end Styrolite
