import Sfsdb.Posix

/-!
`struct Error` of src/common.hpp. `msg` is a pointer in the source; here it is
the origin of the text, so that programs do not depend on what the C library
prints. `Libc` supplies those texts where they are written out: the text a
pointer was made for (`cstring`), and the one that is read through it later
(`read`). They differ for a caught `filesystem_error`: storage.cpp keeps its
`what()` and the exception is destroyed at the end of the catch block, so the
handler reads whatever is in that memory by then, or nothing it could go on with.
-/

namespace Sfsdb

open Posix

instance : DecidableEq CString := inferInstanceAs (DecidableEq { text : Bytes // 0 ∉ text })

inductive Msg where
  | text (bytes : CString)
  | strerror (no : Int)
  | what (no : Errno) (path : Bytes)
  deriving DecidableEq

structure Libc where
  strerror : Int → CString
  what : Errno → Bytes → CString
  freed : Errno → Bytes → Option CString

def Msg.cstring (libc : Libc) : Msg → CString
  | .text bytes => bytes
  | .strerror no => libc.strerror no
  | .what no path => libc.what no path

/-- `none` where there is no text to be read any more. -/
def Msg.read (libc : Libc) : Msg → Option CString
  | .what no path => libc.freed no path
  | msg => some (msg.cstring libc)

/-- The same library, had the exceptions outlived their handlers. -/
def Libc.keeping (libc : Libc) : Libc :=
  { libc with freed := fun no path => some (libc.what no path) }

structure Error where
  no : Int
  msg : Msg
  deriving DecidableEq

namespace Error

def ofErrno (no : Int) : Error := ⟨no, .strerror no⟩

def isError (e : Error) : Bool := e.no ≠ 0

end Error

end Sfsdb
