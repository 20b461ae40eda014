import TextExpander.Disk

/-!
# Disks to start from

What every system has before a program puts anything there: the directories at the root, and the
devices. The working directory lies in `/tmp`. What it is called is not known, so its name is the
empty text, which no path can spell.

## Main definitions

* `Disk.system`: a disk with an empty working directory.
* `Disk.withOpen`: a disk on which the program has opened a file.
* `Disk.ofFiles`: a disk with given files.
-/

namespace TextExpander

namespace Disk

/-- The place that an absolute path spells. -/
def placeOf (path : String) : Place :=
  (path.toList.splitOn '/').filter fun piece => !Path.isIdle piece

/-- The directories that every system has. -/
def systemDirectories : List String :=
  ["/bin", "/boot", "/dev", "/dev/pts", "/dev/shm", "/etc", "/home", "/lib", "/media", "/mnt",
    "/opt", "/proc", "/proc/1", "/proc/self", "/proc/self/fd", "/proc/self/ns", "/proc/self/task",
    "/proc/sys", "/root", "/run", "/sbin", "/srv", "/sys", "/tmp", "/usr", "/usr/bin", "/usr/lib",
    "/usr/share", "/var", "/var/tmp"]

/-- The devices that every system has. -/
def systemDevices : List (String × Device) :=
  [("/dev/null", .null), ("/dev/zero", .endless), ("/dev/random", .endless),
    ("/dev/urandom", .endless), ("/dev/full", .full), ("/dev/tty", .terminal),
    ("/dev/stdin", .input), ("/dev/stdout", .output), ("/dev/stderr", .errors),
    ("/proc/self/exe", .program), ("/proc/self/fd/0", .input), ("/proc/self/fd/1", .output),
    ("/proc/self/fd/2", .errors)]

/-- The place of the working directory. -/
def workingDirectory : Place :=
  placeOf "/tmp" ++ [[]]

/-- The links that every system has. -/
def systemLinks : List (String × Place) :=
  [("/dev/fd", placeOf "/proc/self/fd"), ("/proc/self/cwd", workingDirectory),
    ("/proc/self/root", [])]

/-- A disk with an empty working directory, and with what every system has. -/
def system : Disk where
  here := workingDirectory
  entries :=
    (workingDirectory, .directory) ::
      systemDirectories.map (fun path => (placeOf path, .directory)) ++
      systemDevices.map (fun (path, kind) => (placeOf path, .device kind)) ++
      systemLinks.map (fun (path, goal) => (placeOf path, .link goal))

/-- The disk with a file that the program has opened. It is the first after the three that are open
from the start. -/
def withOpen (d : Disk) (place : Place) : Disk :=
  d.put (placeOf "/proc/self/fd/3") (.link place)

/-! ### Files -/

/-- Makes the directory that a piece of a path leads to from a place. -/
def makeDirectory : Disk × Place → Text → Disk × Place
  | (d, place), piece =>
    match d.enter place piece with
    | .ok next => (d, next)
    | .error _ => (d.put (place ++ [piece]) .directory, place ++ [piece])

/-- The disk with a file in addition, and with the directories that its path goes through. A path
that ends with a slash is that of a directory. -/
def addFile (d : Disk) (path : Path) (content : Array UInt8) : Disk :=
  match (path.text.splitOn '/').reverse with
  | [] => d
  | last :: above =>
    let (d, place) := above.reverse.foldl makeDirectory (d, d.start path)
    if last = [] then d else d.put (place ++ [last]) (.file content)

/-- A disk with the given files, and the directories that their paths go through. -/
def ofFiles (files : List (Path × List UInt8)) : Disk :=
  files.foldl (fun d (path, content) => d.addFile path content.toArray) system

end Disk

end TextExpander
