import Mathlib

/-!
# Error numbers

The part of `syscall/error.rs` that the modelled system calls return.
-/

namespace HitOS

inductive SyscallError where
  | e2big
  | eacces
  | eafnosupport
  | eagain
  | ebadf
  | ebusy
  | ecanceled
  | edeadlk
  | eexist
  | efault
  | efbig
  | eidrm
  | eintr
  | einval
  | eio
  | eloop
  | emsgsize
  | enodev
  | enoent
  | enomem
  | enomsg
  | enospc
  | eopnotsupp
  | eoverflow
  | eperm
  | epfnosupport
  | epipe
  | erange
  | etimedout
  deriving DecidableEq, Repr

end HitOS
