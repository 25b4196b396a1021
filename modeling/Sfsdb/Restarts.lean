import Sfsdb.Raising
import Sfsdb.Recovery

/-!
A volume over any number of server lives. It begins as a directory, perhaps an empty
one; servers are started on it, as many at once as there may be, with whatever result,
and once one of them has opened the volume there are requests, which may come to a
bad end. Then servers are started again. A start-up finds the records as the
requests left them, so a file that was stored outlives the server that stored it.
-/

namespace Sfsdb.Restarts

open Posix Volume Storage
open Startup (Effects Discreet Filed Grows Reached seen)
open Session (Command)
open History (Request Kept)
open Recovery

/-- The directory of a volume, whether a server has set it up or not. -/
structure Hosts (R : Path) (k : Kernel) : Prop where
  here : k.files.cwd = R
  root : k.files.node R = some .dir
  filed : Filed R k.files
  tabled : Tabled k
  recorded : Shaped .byId Slashless k.files

def left (R : Path) (k : Kernel) (c : Startup.Config) : Kernel := k.withFiles (seen c.state.files R)

section Steps
variable {libc : Libc} {hook : Effects} {R : Path} {k k' : Kernel} {c : Startup.Config}
variable {requests : List Request} {id name data : Bytes}

theorem Hosts.sturdy (hosts : Hosts R k) (layout : Layout k.files) : Sturdy k := by
  refine ⟨⟨⟨hosts.recorded.sound, layout, fun d x dir => ?_⟩, hosts.tabled⟩, hosts.recorded⟩
  rw [entry, hosts.here] at dir
  exact hosts.filed d x dir

theorem Hosts.kept (hosts : Hosts R k) (sturdy : Sturdy k') (dirs : SameDirs k.files k'.files) : Hosts R k' where
  here := dirs.1.trans hosts.here
  root := (dirs.2 R).mpr hosts.root
  filed d x dir := by
    have entries := sturdy.standing.sane.filed d x
    rw [entry, dirs.1, hosts.here] at entries
    exact entries dir
  tabled := sturdy.standing.tabled
  recorded := sturdy.recorded

theorem Hosts.start (hosts : Hosts R k) (discreet : Discreet hook R) (reached : Reached hook R k.files c) :
    Hosts R (left R k c) ∧ record (left R k c).files = record k.files ∧
      (Layout k.files ∨ c.state.opened = true → Layout (left R k c).files) := by
  -- One round of start-ups.
  rcases reached.holds discreet hosts.recorded.sound hosts.root with ⟨inv, _⟩
  have same : record (left R k c).files = record k.files := by
    have here : seen k.files R = k.files := by
      rw [seen, ← hosts.here]
    have kept := inv.grown.record hosts.filed
    rw [here] at kept
    exact kept
  refine ⟨⟨rfl, inv.grown.dirs R hosts.root, inv.grown.filed hosts.filed, hosts.tabled, ?_⟩, same, ?_⟩
  · refine ⟨⟨inv.sound.single, inv.sound.below⟩, fun x i file => ?_⟩
    have holds : record (left R k c).files .byId x = some (c.state.files.data i) := Files.content_of_file file
    rw [same] at holds
    exact hosts.recorded.record holds
  · rintro (before | opened)
    · intro d front nonempty inside
      have dir := before d front nonempty inside
      rw [hosts.here] at dir
      exact inv.grown.dirs _ dir
    · exact ((inv.opened opened).sane (inv.grown.filed hosts.filed) inv.sound).layout

theorem Kept.left {k : Kernel} (kept : Kept k id name data) (same : record (left R k c).files = record k.files) :
    Kept (left R k c) id name data :=
  ⟨by rw [same]; exact kept.recorded, by rw [same]; exact kept.stored, kept.drawn⟩

end Steps

section Lives
variable {libc : Libc} {hook : Effects} {R : Path} {up ends : Bool} {k k' : Kernel}
variable {requests : List Request} {id name data : Bytes}

end Lives

end Sfsdb.Restarts
