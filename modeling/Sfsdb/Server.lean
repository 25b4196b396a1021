import Sfsdb.Handlers

/-!
`con_handler` of src/server/server.cpp. A pass of its loop reads a header of 8
bytes, then as many bytes as it announces, and serves the request. `serve` is a
parameter of the loop so that the splitting of a byte stream into requests can
be stated by itself; `conHandler` serves by `protocol::parse` over the table.
`stale` is the command a header object holds before anything is read into it,
and `behind` the memory that follows the request buffer.
-/

namespace Sfsdb.Server

open Posix Protocol Handlers

/-- How the loop ends: left by a break, by a read outside the memory, or with
the process. -/
inductive End where
  | left
  | crashed
  | killed
  deriving DecidableEq

def header (stale : Nat) : Data := ⟨ids.HEADER, 0, .header stale⟩

section Loop
variable {σ : Type} (libc : Libc) (stale : Nat)

def conPass (serve : σ → Data → Bytes → Prog (σ ⊕ σ × End)) (st : σ) : Prog (σ ⊕ σ × End) := do
  let .ok tmp ← Sys.recv HEADER_BYTES | return .inr (st, .left)
  match getType (Mem.ofList tmp) 0 (header stale) with
  | none => return .inr (st, .crashed)
  | some (err, head, _) =>
      if err.isError then
        let _ ← Sys.send (errorMessage (err.msg.cstring libc).val)
        return .inr (st, .left)
      let .ok req ← Sys.recv head.length | return .inr (st, .left)
      serve st head req

def conLoop (serve : σ → Data → Bytes → Prog (σ ⊕ σ × End)) (start : σ) : Prog (σ × End) :=
  Program.iterate (conPass libc stale serve) start

end Loop

/-- What `con_handler` does with the value of `protocol::parse`, -1 included. -/
def respond (reply : Reply) : Prog (Unit ⊕ Unit × End) :=
  if reply.code ≠ HANDLER_NO_SEND_RES then do
    let .ok _ ← Sys.send reply.res | return .inr ((), .left)
    return .inl ()
  else return .inl ()

/-- `protocol::parse` and the write of the response; where the table has no
handler at all, the response stays empty. -/
def serveRequest (libc : Libc) (behind : Mem) (_ : Unit) (head : Data) (req : Bytes) :
    Prog (Unit ⊕ Unit × End) :=
  match select (commands libc) head.command with
  | none => respond ⟨-1, []⟩
  | some handler =>
      match handler (Mem.followedBy req behind) with
      | none => return .inr ((), .crashed)
      | some program => do
          match ← program with
          | none => return .inr ((), .killed)
          | some reply => respond reply

def conHandler (libc : Libc) (stale : Nat) (behind : Mem) : Prog (Unit × End) :=
  conLoop libc stale (serveRequest libc behind) ()

end Sfsdb.Server
