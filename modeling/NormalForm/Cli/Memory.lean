import NormalForm.Cli.Host

/-!
A host that keeps files in memory. Paths are taken relative to one directory, which holds the files;
of what lies outside it only the directories above exist. The clock moves on by a microsecond whenever
it is read.
-/

set_option autoImplicit false

namespace NormalForm.Cli

inductive Place where
  -- The parts of a path from the directory of the files on.
  | inside (parts : List String)
  | above
  | nowhere

structure Memory where
  files : List (List String × ByteArray)
  printed : String
  records : Array Record
  time : Nat

namespace Memory

def partsOf (name : String) : List String := (name.splitOn "/").filter fun part => part != ""

def ofFiles (files : List (String × String)) : Memory :=
  { files := files.map fun (name, text) => (partsOf name, text.toUTF8)
    printed := ""
    records := #[]
    time := 0 }

def find? (memory : Memory) (parts : List String) : Option ByteArray :=
  (memory.files.find? fun file => file.1 == parts).map Prod.snd

def isDirectory (memory : Memory) (parts : List String) : Bool :=
  parts.isEmpty || memory.files.any fun file =>
    parts.length < file.1.length && parts.isPrefixOf file.1

def enter (memory : Memory) : Place → String → Place
  | .inside parts, part =>
      if !memory.isDirectory parts then .nowhere
      else if part = "" ∨ part = "." then .inside parts
      else if part ≠ ".." then .inside (parts ++ [part])
      else if parts.isEmpty then .above
      else .inside parts.dropLast
  | .above, part => if part = "" ∨ part = "." ∨ part = ".." then .above else .nowhere
  | .nowhere, _ => .nowhere

def locate (memory : Memory) (path : String) : Place :=
  let start := if path.startsWith "/" then Place.above else .inside []
  (path.splitOn "/").foldl memory.enter start

def read (memory : Memory) (path : String) : Contents :=
  match memory.locate path with
  | .above => .unreadable "is a directory"
  | .nowhere => .missing
  | .inside parts =>
      match memory.find? parts with
      | some bytes => .bytes bytes
      | none => if memory.isDirectory parts then .unreadable "is a directory" else .missing

def put (memory : Memory) (parts : List String) (bytes : ByteArray) : Memory :=
  { memory with files := (memory.files.filter fun file => file.1 != parts) ++ [(parts, bytes)] }

def write (memory : Memory) (path text : String) : Written × Memory :=
  match memory.locate path with
  | .inside parts =>
      if memory.isDirectory parts then (.notCreated "is a directory", memory)
      else (.done, memory.put parts text.toUTF8)
  | _ => (.notCreated "no such directory", memory)

def host : Host (StateM Memory) :=
  { read := fun path => return (← get).read path
    write := fun path text => modifyGet fun memory => memory.write path text
    print := fun text => modify fun memory => { memory with printed := memory.printed ++ text }
    log := fun record => modify fun memory => { memory with records := memory.records.push record }
    clock := modifyGet fun memory => (memory.time, { memory with time := memory.time + 1000 }) }

end Memory

end NormalForm.Cli
