import Sfsdb.Durability

/-!
Connections that only read. What a stream of bytes asks for is found by parsing
it; where that finds no PUT and no DEL, no byte of it, well formed or not, makes
the server change a file, draw an id or leave a lock behind.
-/

namespace Sfsdb.Readers

open Posix Protocol Durability
open Service (Keeps)

def Reads (request : Data × Bytes) : Prop := request.1.command ≠ 2 ∧ request.1.command ≠ 4

section Points
variable {libc : Libc} {stale : Nat} {behind : Mem} {q : Pid} {k k' : Kernel} {head body rest : Bytes} {d : Data}

theorem rests_hears (alone : Kernel.Alone q k) (x : Bytes) : Rests q k (k.hears q x) := ⟨rfl, rfl, rfl, alone⟩

theorem serveRequest_quiet (libc : Libc) (behind : Mem) (reads : d.command ≠ 2 ∧ d.command ≠ 4) (body : Bytes) :
    Keeps Quiet (Server.serveRequest libc behind () d body) := by
  apply Service.serve_within (r := ⟨0, behind, d, body⟩) (fun _ looks => looks.2) fun _ => ⟨trivial, by simp⟩
  rintro c asks (put | del)
  · exact absurd (asks.command.trans put) reads.1
  · exact absurd (asks.command.trans del) reads.2

theorem malformed_points {σ : Type} {serve : σ → Data → Bytes → Prog (σ ⊕ σ × Server.End)} {st : σ}
    {point : Prog (σ ⊕ σ × Server.End)} (whole : head.length = HEADER_BYTES) (inbox : k.inbox q = head ++ rest)
    (nothing : Framing.headerOf stale head = none) (alone : Kernel.Alone q k)
    (reach : At q (Server.conPass libc stale serve st) k point k') : Rests q k k' := by
  obtain ⟨err, found, failed, msg⟩ := Framing.getType_malformed whole nothing
  have header : Runs q (Sys.recv HEADER_BYTES) k (.ok head) (k.hears q rest) := whole ▸ recv_runs inbox
  rcases recv_points reach with ⟨x, rfl⟩ | ⟨r, k₁, read, later⟩
  · exact rests_hears alone x
  · obtain ⟨rfl, rfl⟩ := (gives_of_runs header r k₁).mp read
    dsimp only at later
    rw [found] at later
    dsimp only at later
    rw [if_pos failed] at later
    have sends : ∀ bytes, Keeps Quiet (Sys.send bytes) := fun bytes =>
      Program.within_issue (c := Call.send bytes) ⟨trivial, by simp⟩ fun _ _ => trivial
    exact (rests_hears alone rest).trans
      (at_quiet ((sends _).bind fun _ _ => Program.Within.done trivial) later (rests_hears alone rest).alone)

theorem reading_pass {point : Prog (Unit ⊕ Unit × Server.End)} (whole : head.length = HEADER_BYTES)
    (inbox : k.inbox q = head ++ (body ++ rest)) (found : Framing.headerOf stale head = some d)
    (sized : body.length = d.length) (reads : d.command ≠ 2 ∧ d.command ≠ 4) (alone : Kernel.Alone q k)
    (reach : At q (Server.conPass libc stale (Server.serveRequest libc behind) ()) k point k') : Rests q k k' := by
  rcases pass_points whole inbox found sized reach with ⟨x, rfl⟩ | serving
  · exact rests_hears alone x
  · exact (rests_hears alone rest).trans
      (at_quiet (serveRequest_quiet libc behind reads body) serving (rests_hears alone rest).alone)

theorem reading_points {stream : Bytes} {point : Prog (Unit × Server.End)} (alone : Kernel.Alone q k)
    (throws : k.Throws) (inbox : k.inbox q = stream) (reads : ∀ request ∈ (Framing.parse stale stream).1, Reads request)
    (reach : At q (Server.conHandler libc stale behind) k point k') : Rests q k k' := by
  -- By induction on the splitting of the stream, with a case for each way it can go on.
  have cut : ∀ {k k' : Kernel} {stream : Bytes} {point : Prog (Unit × Server.End)}, Kernel.Alone q k →
      k.Throws → k.inbox q = stream → Framing.parse stale stream = ([], .cut) →
      At q (Server.conHandler libc stale behind) k point k' → Rests q k k' := by
    intro k k' stream point alone throws inbox parsed reach
    obtain ⟨x, rfl⟩ := cut_points throws inbox parsed reach
    exact rests_hears alone x
  induction Framing.splits stale stream generalizing k with
  | short short => exact cut alone throws inbox (Framing.parse_cut short) reach
  | cut whole found short => exact cut alone throws inbox (Framing.parse_short whole found short) reach
  | malformed whole nothing =>
      rcases Program.reaches_loop reach with rfl | turn
      · exact ⟨rfl, rfl, rfl, alone⟩
      · rcases turn.bind_split with ⟨inside, _, passing⟩ | ⟨value, middle, ran, onward⟩
        · exact malformed_points whole inbox nothing alone passing
        · have rests := malformed_points whole inbox nothing alone (Program.Reaches.of_runs ran)
          have left : Runs q (Server.conPass libc stale (Server.serveRequest libc behind) ()) k (.inr ((), .left)) _ :=
            Framing.conPass_malformed whole inbox nothing
          obtain ⟨rfl, rfl⟩ := (gives_of_runs left value middle).mp ran
          exact (Program.reaches_done onward) ▸ rests
  | @quit head body rest d whole found sized leaves =>
      have others : d.command ≠ 2 ∧ d.command ≠ 4 := by
        rw [leaves]
        decide
      rcases Program.reaches_loop reach with rfl | turn
      · exact ⟨rfl, rfl, rfl, alone⟩
      · rcases turn.bind_split with ⟨inside, _, passing⟩ | ⟨value, middle, ran, onward⟩
        · exact reading_pass whole inbox found sized others alone passing
        · -- the connection is closed, so that nothing more comes in
          have left : Runs q (Server.conPass libc stale (Server.serveRequest libc behind) ()) k (.inl ()) _ :=
            Framing.conPass_quit whole inbox found sized leaves
          obtain ⟨rfl, rfl⟩ := (gives_of_runs left value middle).mp ran
          have nothing : Framing.parse stale [] = ([], .cut) := Framing.parse_cut (by decide)
          have throws₁ : (k.hears q []).Throws := throws
          exact (rests_hears alone []).trans
            (cut (rests_hears alone []).alone throws₁ (Kernel.hears_inbox []) nothing onward)
  | @request head body rest d whole found sized stays _ ih =>
      rw [Framing.parse_request whole found sized stays] at reads
      have others : Reads (d, body) := reads _ List.mem_cons_self
      rcases Program.reaches_loop reach with rfl | turn
      · exact ⟨rfl, rfl, rfl, alone⟩
      · rcases turn.bind_split with ⟨inside, _, passing⟩ | ⟨value, middle, ran, onward⟩
        · exact reading_pass whole inbox found sized others alone passing
        · have rests := reading_pass whole inbox found sized others alone (Program.Reaches.of_runs ran)
          have throws₁ := Kernel.runs_throws ran throws
          obtain ⟨k₂, _, rfl⟩ := (Framing.conPass_request whole inbox found sized stays).mp ran
          rcases value with ⟨⟩ | ⟨⟨⟩, e⟩
          · have later := ih rests.alone throws₁ (Kernel.hears_inbox rest)
              (fun request member => reads request (List.mem_cons_of_mem _ member)) onward
            exact rests.trans later
          · exact (Program.reaches_done onward) ▸ rests

end Points

end Sfsdb.Readers
