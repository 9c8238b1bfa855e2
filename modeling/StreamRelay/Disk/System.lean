/-
  StreamRelay/Disk/System.lean
  ============================
  **What is on every system.**

  The folders, files, devices and links that a program finds wherever it runs, each under its path
  from the root. No path here goes through a link.
-/
import StreamRelay.Disk.Place

namespace StreamRelay.Disk

def descriptorFolder : Trail := ["proc", "self", "fd"]

def descriptorAccounts : Trail := ["proc", "self", "fdinfo"]

/-- The name of the folder that the program runs in, as it sees itself. -/
def workingFolderLink : String := "/proc/self/cwd"

/-- Names that lead elsewhere, and the trails that they lead to. -/
def systemLinks : List (String × Trail) :=
  [("/bin", ["usr", "bin"]), ("/lib", ["usr", "lib"]), ("/lib64", ["usr", "lib64"]),
   ("/sbin", ["usr", "sbin"]), ("/dev/fd", descriptorFolder),
   ("/dev/stdin", descriptorFolder ++ ["0"]), ("/dev/stdout", descriptorFolder ++ ["1"]),
   ("/dev/stderr", descriptorFolder ++ ["2"]), ("/proc/mounts", ["proc", "self", "mounts"]),
   ("/proc/net", ["proc", "self", "net"]), ("/proc/self/root", []),
   ("/proc/thread-self", ["proc", "self"]), ("/usr/local/man", ["usr", "local", "share", "man"]),
   ("/var/lock", ["run", "lock"]), ("/var/run", ["run"])]

def systemFolders : List String :=
  ["/boot", "/dev", "/dev/pts", "/dev/shm", "/etc", "/etc/alternatives", "/etc/default",
   "/etc/init.d", "/etc/opt", "/etc/pam.d", "/etc/profile.d", "/etc/security", "/etc/skel", "/home",
   "/media", "/mnt", "/opt", "/proc", "/proc/1", "/proc/bus", "/proc/driver", "/proc/fs",
   "/proc/irq", "/proc/self", "/proc/self/attr", "/proc/self/fd", "/proc/self/fdinfo",
   "/proc/self/map_files", "/proc/self/net", "/proc/self/ns", "/proc/self/task", "/proc/sys",
   "/proc/sys/fs", "/proc/sys/kernel", "/proc/sys/net", "/proc/sys/vm", "/proc/sysvipc",
   "/proc/tty", "/root", "/run", "/run/lock", "/srv", "/sys", "/sys/block", "/sys/bus",
   "/sys/class", "/sys/dev", "/sys/devices", "/sys/firmware", "/sys/fs", "/sys/kernel",
   "/sys/module", "/sys/power", "/tmp", "/usr", "/usr/bin", "/usr/games", "/usr/include",
   "/usr/lib", "/usr/lib64", "/usr/libexec", "/usr/local", "/usr/local/bin", "/usr/local/etc",
   "/usr/local/games", "/usr/local/include", "/usr/local/lib", "/usr/local/sbin",
   "/usr/local/share", "/usr/local/share/man", "/usr/local/src", "/usr/sbin", "/usr/share",
   "/usr/share/doc", "/usr/share/man", "/usr/src", "/var", "/var/backups", "/var/cache", "/var/lib",
   "/var/local", "/var/log", "/var/mail", "/var/opt", "/var/spool", "/var/tmp"]

/-- Regular files. A disk that does not list them does not tell what is in them. -/
def systemFiles : List String :=
  ["/etc/fstab", "/etc/group", "/etc/hostname", "/etc/hosts", "/etc/passwd", "/etc/profile",
   "/etc/resolv.conf", "/etc/shadow", "/usr/bin/bash", "/usr/bin/cat", "/usr/bin/env",
   "/usr/bin/ls", "/usr/bin/sh"]

def programAccounts : List String :=
  ["auxv", "cgroup", "cmdline", "cpuset", "environ", "io", "limits", "maps", "mountinfo", "mounts",
   "mountstats", "numa_maps", "oom_score", "pagemap", "personality", "schedstat", "sessionid",
   "smaps", "smaps_rollup", "stack", "stat", "statm", "status", "syscall", "timers", "wchan"]

def systemAccounts : List String :=
  ["buddyinfo", "cgroups", "cmdline", "consoles", "cpuinfo", "crypto", "devices", "diskstats",
   "dma", "filesystems", "interrupts", "iomem", "ioports", "kallsyms", "keys", "loadavg", "locks",
   "meminfo", "misc", "pagetypeinfo", "partitions", "slabinfo", "softirqs", "stat", "swaps",
   "timer_list", "uptime", "version", "vmallocinfo", "vmstat", "zoneinfo"]

/-- The devices. The bytes that the random devices give cannot be foretold; here they are zeros.
    Accounts cannot be foretold either, and are empty here. -/
def devices : List (String × Device) :=
  [("/dev/null", .null), ("/dev/zero", .zero), ("/dev/full", .full), ("/dev/random", .zero),
   ("/dev/urandom", .zero), ("/dev/ptmx", .null), ("/dev/tty", .terminal),
   ("/proc/self/comm", .null), ("/proc/self/exe", .program),
   ("/proc/self/mem", .account .inputOutput)]
    ++ programAccounts.map (fun name => ("/proc/self/" ++ name, .account .invalidArgument))
    ++ systemAccounts.map fun name => ("/proc/" ++ name, .account .inputOutput)

end StreamRelay.Disk

namespace StreamRelay.Trail

/-- What the system tells of itself is under names that it does not take from anyone: there they may
    be of any length. -/
def limitsNames (trail : Trail) : Bool := !trail.isWithin ["proc"] && !trail.isWithin ["sys"]

def refusal? (trail : Trail) : Option Fault :=
  if trail.isWithin ["proc"] then some .noSuchFile
  else if trail.isWithin ["sys"] || trail.isWithin ["dev", "pts"] then some .accessDenied
  else none

end StreamRelay.Trail
