import Mathlib.Tactic.Common
import Mathlib.Algebra.GroupWithZero.Nat

/-! The kernel as the relay's event loop sees it: clock readings, descriptors,
epoll interest, and the calls made for one TCP connection with the answers
they received. -/

namespace PreconnRelay

/-- A reading of the monotonic clock, in nanoseconds. -/
abbrev Instant := Nat

def secs (n : UInt64) : Nat := n.toNat * 1000000000

/-- `now.duration_since(t)`; zero when `t` is the later one. -/
def durationSince (now t : Instant) : Nat := now - t

/-- `main` sets RLIMIT_NOFILE to this value; where it may not, the hard limit
is lower already. A descriptor number is below the limit either way. -/
abbrev rlimitNofile : Nat := 65535

abbrev Fd := Fin rlimitNofile

theorem rlimitNofile_ne_zero : rlimitNofile ≠ 0 := by decide

instance : NeZero rlimitNofile := ⟨rlimitNofile_ne_zero⟩

inductive Errno
  | EAGAIN
  | EINTR
  | ENOMEM
  | other (code : Nat)
  deriving DecidableEq, Repr

inductive SpliceResult
  | ok (n : Nat)
  | err (e : Errno)
  deriving DecidableEq, Repr

def SpliceResult.bytes : SpliceResult → Nat
  | ok n => n
  | err _ => 0

@[simp] theorem SpliceResult.bytes_ok {n : Nat} : (ok n).bytes = n := rfl
@[simp] theorem SpliceResult.bytes_err {e : Errno} : (err e).bytes = 0 := rfl

@[elab_as_elim] theorem SpliceResult.byAnswer {motive : SpliceResult → Prop}
    (zero : motive (.ok 0)) (moved : ∀ n, motive (.ok (n + 1))) (eagain : motive (.err .EAGAIN))
    (eintr : motive (.err .EINTR)) (enomem : motive (.err .ENOMEM))
    (other : ∀ code, motive (.err (.other code))) (answer : SpliceResult) : motive answer := by
  cases answer with
  | ok n =>
    cases n with
    | zero => exact zero
    | succ n => exact moved n
  | err e =>
    cases e with
    | EAGAIN => exact eagain
    | EINTR => exact eintr
    | ENOMEM => exact enomem
    | other code => exact other code

structure EpollFlags where
  epollin : Bool := false
  epollout : Bool := false
  epollerr : Bool := false
  epollhup : Bool := false
  epollrdhup : Bool := false
  epollet : Bool := false
  deriving DecidableEq, Repr

inductive Side
  | l
  | r
  deriving DecidableEq, Repr

inductive Dir
  | l2r
  | r2l
  deriving DecidableEq, Repr

def Dir.src : Dir → Side
  | l2r => .l
  | r2l => .r

def Dir.dst : Dir → Side
  | l2r => .r
  | r2l => .l

def Dir.rev : Dir → Dir
  | l2r => r2l
  | r2l => l2r

@[simp] theorem Dir.rev_ne (d : Dir) : d.rev ≠ d := by cases d <;> decide

@[simp] theorem Dir.dst_rev (d : Dir) : d.rev.dst = d.src := by cases d <;> rfl

theorem Dir.eq_or_eq_rev (d e : Dir) : e = d ∨ e = d.rev := by
  cases d <;> cases e <;> simp [Dir.rev]

/-- A system call made while handling one connection, with its answer. -/
inductive Syscall
  /-- `splice(src, pipe_w, len)` -/
  | spliceIn (d : Dir) (len : Nat) (answer : SpliceResult)
  /-- `splice(pipe_r, dst, len)` -/
  | spliceOut (d : Dir) (len : Nat) (answer : SpliceResult)
  | shutdownWrite (s : Side)
  | epollModify (s : Side) (events : EpollFlags) (data : UInt64)
  deriving DecidableEq, Repr

namespace Syscall

def isSplice : Syscall → Bool
  | spliceIn _ _ _ => true
  | spliceOut _ _ _ => true
  | _ => false

def answer : Syscall → SpliceResult
  | spliceIn _ _ a => a
  | spliceOut _ _ a => a
  | _ => .ok 0

def interrupted (c : Syscall) : Bool := decide (c.answer = .err .EINTR)

def moved (c : Syscall) : Nat := c.answer.bytes

def moves (c : Syscall) : Bool := decide (0 < c.moved)

section Moved

variable {d : Dir} {len : Nat} {a : SpliceResult} {s : Side} {events : EpollFlags} {data : UInt64}

@[simp] theorem moved_spliceIn : (spliceIn d len a).moved = a.bytes := rfl
@[simp] theorem moved_spliceOut : (spliceOut d len a).moved = a.bytes := rfl
@[simp] theorem moved_shutdownWrite : (shutdownWrite s).moved = 0 := rfl
@[simp] theorem moved_epollModify : (epollModify s events data).moved = 0 := rfl

end Moved

end Syscall

end PreconnRelay
