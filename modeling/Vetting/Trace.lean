import Vetting.Fault
import Vetting.Text.Case
import Vetting.Text.Digit

/-!
# Categories of system calls

A system call that two lists name, such as closing a descriptor, counts for the first.
-/

/-!
## The argument list of a traced system call

An argument may be quoted, or be a list in brackets or a record in braces, and these nest. The scanner walks
the text once. It keeps the closing characters it waits for on a stack, and beside it the one it waits for
next.
-/

namespace Vetting.Trace

/-- What of an argument's decoration is kept. -/
structure ArgumentOptions where
  /-- Keep the quote, bracket or brace that opens an outermost group. -/
  quotes : Bool := true
  /-- Keep the dots that say that a group was cut short. -/
  ellipsis : Bool := true

/-- The state of the scanner. Texts are kept in reverse. -/
structure ArgumentScan where
  done : List (List Char) := []
  current : List Char := []
  /-- The character that closes the innermost group. -/
  awaited : Option Char := none
  /-- The closing characters of all open groups, the innermost first. -/
  nest : List Char := []
  escaped : Bool := false
  /-- A group has just ended, so only dots, blanks and a comma are meaningful. -/
  expectComma : Bool := false
  /-- A comma has just ended an argument, so blanks are passed over. -/
  between : Bool := false

namespace ArgumentScan

variable (c : Char) (s : ArgumentScan) (o : ArgumentOptions)

def isGap : Bool := c = ' ' || c = '\t'

def isQuote : Bool := c = '"' || c = '\''

def isDelimiter : Bool :=
  isQuote c || c = '[' || c = ']' || c = '\x7b' || c = '\x7d'

def closerOf : Char := if c = '[' then ']' else if c = '\x7b' then '\x7d' else c

def push (c : Char) : ArgumentScan := { s with current := c :: s.current }

def finish : ArgumentScan :=
  { s with done := s.current :: s.done, current := [], between := true, expectComma := false }

/-- Leaves the innermost group. After the outermost one a comma is due, if the list could be read. -/
def leave : Except Fault ArgumentScan :=
  match s.nest with
  | [] => .error (.cause .outOfRange)
  | [_] =>
    .ok { s with nest := [], awaited := none,
                 expectComma := s.expectComma || s.current.reverse != ['[', '?', ']'] }
  | _ :: inner :: rest => .ok { s with nest := inner :: rest, awaited := some inner }

def enter (c : Char) : ArgumentScan :=
  { s with nest := closerOf c :: s.nest, awaited := some (closerOf c) }

/-- A character after a group and before the comma. -/
def stepAfterGroup (s : ArgumentScan) (c : Char) : Except Fault ArgumentScan :=
  if s.awaited.isSome then .error (.cause .assertion)
  else if c = '.' then .ok (if o.ellipsis then s.push c else s)
  else if c = ',' then .ok s.finish
  else .ok s

def stepDelimiter (s : ArgumentScan) (c : Char) : Except Fault ArgumentScan :=
  if s.awaited.any isQuote && s.awaited != some c then .ok (s.push c)
  else if s.awaited = some c then
    (if o.quotes || !s.nest.isEmpty then s.push c else s).leave
  else if c = ']' || c = '\x7d' then .ok (s.push c)
  else .ok ((if o.quotes || !s.nest.isEmpty then s.push c else s).enter c)

def stepInside (s : ArgumentScan) (c : Char) : Except Fault ArgumentScan :=
  if s.escaped then .ok { s.push c with escaped := false }
  else if c = '\\' then .ok { s.push c with escaped := true }
  else if isDelimiter c then s.stepDelimiter o c
  else if c = ',' && s.awaited.isNone then .ok s.finish
  else .ok (s.push c)

def step (s : ArgumentScan) (c : Char) : Except Fault ArgumentScan :=
  if s.between && isGap c then .ok s
  else
    let s := { s with between := false }
    if s.expectComma then s.stepAfterGroup o c else s.stepInside o c

def result : List (List Char) :=
  (if s.current.isEmpty then s.done else s.current :: s.done).reverse.map List.reverse

end ArgumentScan

def parseArguments (o : ArgumentOptions) (cs : List Char) : Except Fault (List (List Char)) :=
  (cs.foldlM (ArgumentScan.step o) {}).map ArgumentScan.result

/-! ## Categories of system calls -/

/-- What a system call is about. -/
inductive Category where
  | file
  | network
  | process
  | time
  | signal
  | ipc
  | keyManagement
deriving BEq, DecidableEq, Inhabited

namespace Category

def label : Category → String
  | .file => "FILE"
  | .network => "NETWORK"
  | .process => "PROCESS"
  | .time => "TIME"
  | .signal => "SIGNAL"
  | .ipc => "IPC"
  | .keyManagement => "KEY_MANAGEMENT"

def all : List Category := [.file, .network, .process, .time, .signal, .ipc, .keyManagement]

def fileCalls : List String := [
  "CLOSE", "CREAT", "OPEN", "OPENAT", "NAME_TO_HANDLE_AT", "OPEN_BY_HANDLE_AT", "MEMFD_CREATE",
   "MKNOD", "MKNODAT", "RENAME", "RENAMEAT", "TRUNCATE", "FTRUNCATE", "FALLOCATE", "MKDIR",
   "MKDIRAT", "RMDIR", "GETCWD", "CHDIR", "FCHDIR", "CHROOT", "GETDENTS", "GETDENTS64",
   "LOOKUP_DCOOKIE", "LINK", "LINKAT", "SYMLINK", "SYMLINKAT", "UNLINK", "UNLINKAT", "READLINK",
   "READLINKAT", "UMASK", "STAT", "LSTAT", "FSTAT", "FSTATAT", "CHMOD", "FCHMOD", "FCHMODAT",
   "CHOWN", "LCHOWN", "FCHOWN", "FCHOWNAT", "UTIME", "UTIMES", "FUTIMESAT", "UTIMENSAT",
   "ACCESS", "FACCESSAT", "SETXATTR", "LSETXATTR", "FSETXATTR", "GETXATTR", "LGETXATTR",
   "FGETXATTR", "LISTXATTR", "LLISTXATTR", "FLISTXATTR", "REMOVEXATTR", "LREMOVEXATTR",
   "FREMOVEXATTR", "IOCTL", "FCNTL", "DUP", "DUP2", "DUP3", "FLOCK", "READ", "READV", "PREAD",
   "PREADV", "WRITE", "WRITEV", "PWRITE", "PWRITEV", "LSEEK", "SENDFILE", "FDATASYNC", "FSYNC",
   "MSYNC", "SYNC_FILE_RANGE", "SYNC", "SYNCFS", "IO_SETUP", "IO_DESTROY", "IO_SUBMIT",
   "IO_CANCEL", "IO_GETEVENTS", "SELECT", "PSELECT6", "POLL", "PPOLL", "EPOLL_CREATE",
   "EPOLL_CREATE1", "EPOLL_CTL", "EPOLL_WAIT", "EPOLL_PWAIT", "INOTIFY_INIT", "INOTIFY_INIT1",
   "INOTIFY_ADD_WATCH", "INOTIFY_RM_WATCH", "FANOTIFY_INIT", "FANOTIFY_MARK", "FADVISE64",
   "READAHEAD", "GETRANDOM", "_LLSEEK", "STAT64", "READDIR", "FSTATFS64", "TRUNCATE64",
   "SENDFILE64", "FSTATFS", "STATFS64", "CREATE_MODULE", "STATFS", "PREADV2", "FSTATAT64",
   "FADVISE64_64", "LSTAT64", "FSTAT64", "STATX", "PWRITEV2", "RENAMEAT2", "FTRUNCATE64",
   "PREAD64", "LCHOWN32", "CHOWN32", "SYNC_FILE_RANGE2", "FCHOWN32", "FCNTL64", "PWRITE64"]

def networkCalls : List String := [
  "SOCKET", "SOCKETPAIR", "SETSOCKOPT", "GETSOCKOPT", "GETSOCKNAME", "GETPEERNAME", "BIND",
   "LISTEN", "ACCEPT", "ACCEPT4", "CONNECT", "SHUTDOWN", "RECVFROM", "RECVMSG", "RECVMMSG",
   "SENDTO", "SENDMSG", "SENDMMSG", "SETHOSTNAME", "SETDOMAINNAME", "BPF", "CLOSE", "SOCKETCALL",
   "RECV", "SEND"]

def processCalls : List String := [
  "CLONE", "FORK", "VFORK", "EXECVE", "EXECVEAT", "EXIT", "EXIT_GROUP", "WAIT4", "WAITID",
   "GETPID", "GETPPID", "GETTID", "SETSID", "GETSID", "SETPGID", "GETPGID", "GETPGRP", "SETUID",
   "GETUID", "SETGID", "GETGID", "SETRESUID", "GETRESUID", "SETRESGID", "GETRESGID", "SETREUID",
   "SETREGID", "SETFSUID", "SETFSGID", "GETEUID", "GETEGID", "SETGROUPS", "GETGROUPS", "SETNS",
   "SETRLIMIT", "GETRLIMIT", "PRLIMIT", "GETRUSAGE", "SCHED_SETATTR", "SCHED_GETATTR",
   "SCHED_SETSCHEDULER", "SCHED_GETSCHEDULER", "SCHED_SETPARAM", "SCHED_GETPARAM",
   "SCHED_SETAFFINITY", "SCHED_GETAFFINITY", "SCHED_GET_PRIORITY_MAX", "SCHED_GET_PRIORITY_MIN",
   "SCHED_RR_GET_INTERVAL", "SCHED_YIELD", "SETPRIORITY", "GETPRIORITY", "IOPRIO_SET",
   "IOPRIO_GET", "BRK", "MMAP", "MUNMAP", "MREMAP", "MPROTECT", "MADVISE", "MLOCK", "MLOCK2",
   "MLOCKALL", "MUNLOCK", "MUNLOCKALL", "MINCORE", "MEMBARRIER", "MODIFY_LDT", "CAPSET",
   "CAPGET", "SET_THREAD_AREA", "GET_THREAD_AREA", "SET_TID_ADDRESS", "ARCH_PRCTL", "USELIB",
   "PRCTL", "SECCOMP", "PTRACE", "PROCESS_VM_READV", "PROCESS_VM_WRITEV", "KCMP", "UNSHARE",
   "GETUID32", "SETUID32", "GETEGID32", "SETRESUID32", "PRLIMIT64", "SETREUID32", "MMAP2",
   "GETEUID32", "SETFSGID32", "GETGROUPS32", "SETGROUPS32", "GETRESUID32", "GETRESGID32",
   "GETGID32", "SETGID32", "SETRESGID32", "SETFSUID32", "SETREGID32", "NICE"]

def timeCalls : List String := [
  "TIME", "SETTIMEOFDAY", "GETTIMEOFDAY", "CLOCK_SETTIME", "CLOCK_GETTIME", "CLOCK_GETRES",
   "CLOCK_ADJTIME", "CLOCK_NANOSLEEP", "TIMER_CREATE", "TIMER_DELETE", "TIMER_SETTIME",
   "TIMER_GETTIME", "TIMER_GETOVERRUN", "ALARM", "SETITIMER", "GETITIMER", "TIMERFD_CREATE",
   "TIMERFD_SETTIME", "TIMERFD_GETTIME", "ADJTIMEX", "NANOSLEEP", "TIMES"]

def signalCalls : List String := [
  "KILL", "TKILL", "TGKILL", "PAUSE", "RT_SIGACTION", "RT_SIGPROCMASK", "RT_SIGPENDING",
   "RT_SIGQUEUEINFO", "RT_TGSIGQUEUEINFO", "RT_SIGTIMEDWAIT", "RT_SIGSUSPEND", "RT_SIGRETURN",
   "SIGALTSTACK", "SIGNALFD", "SIGNALFD4", "EVENTFD", "EVENTFD2", "RESTART_SYSCALL", "SIGACTION",
   "SIGNAL", "SIGPENDING", "SIGPROCMASK", "SIGRETURN", "SIGSUSPEND"]

def ipcCalls : List String := [
  "IPC", "PIPE", "PIPE2", "TEE", "SPLICE", "VMSPLICE", "SHMGET", "SHMCTL", "SHMAT", "SHMDT",
   "SEMGET", "SEMCTL", "SEMOP", "SEMTIMEDOP", "FUTEX", "SET_ROBUST_LIST", "GET_ROBUST_LIST",
   "MSGGET", "MSGCTL", "MSGSND", "MSGRCV", "MQ_OPEN", "MQ_UNLINK", "MQ_GETSETATTR",
   "MQ_TIMEDSEND", "MQ_TIMEDRECEIVE", "MQ_NOTIFY"]

def keyCalls : List String := [
  "ADD_KEY", "REQUEST_KEY", "KEYCTL"]

def calls : Category → List String
  | .file => fileCalls
  | .network => networkCalls
  | .process => processCalls
  | .time => timeCalls
  | .signal => signalCalls
  | .ipc => ipcCalls
  | .keyManagement => keyCalls

def ofName? (name : String) : Option Category :=
  let name := Text.upper name
  all.find? fun c => c.calls.contains name

end Category

/-! ### Traced processes -/

structure Seen where
  name : String
  category : Option Category
deriving BEq, DecidableEq, Inhabited

structure Process where
  pid : Int
  name : Option String
  calls : List Seen := []
deriving BEq, DecidableEq, Inhabited

def Process.add (p : Process) (call : String) : Process :=
  { p with calls := p.calls ++ [{ name := call, category := Category.ofName? call }] }

/-- How many calls of a trace are complete and which processes made them. The first line must start with the
number of a process; lines after it cannot be read yet. -/
def readTrace (text : String) : Except Fault (Nat × List Int) :=
  match (Text.splitOnMax text "\n" 1).head? with
  | none => .ok (0, [])
  | some line =>
    if text.isEmpty then .ok (0, [])
    else
      match (Text.strip line).toList with
      | [] => .error (.failure "The first line needs to be valid!")
      | c :: _ =>
        if Text.isDigit c then .error (.cause .noMember)
        else .error (.failure "The first line needs to be valie!")

end Vetting.Trace
