import CatalogLinker.CommandLine.Place

namespace CatalogLinker.CommandLine

abbrev System := List (Place × Content)

namespace System

def directories : List Place := [
  ["bin"], ["boot"], ["dev"], ["dev", "fd"], ["dev", "pts"], ["dev", "shm"], ["etc"], ["home"],
  ["lib"], ["lib64"], ["media"], ["mnt"], ["opt"], ["proc"], ["proc", "self"],
  ["proc", "self", "fd"], ["root"], ["run"], ["sbin"], ["srv"], ["sys"], ["tmp"], ["usr"],
  ["usr", "bin"], ["usr", "include"], ["usr", "lib"], ["usr", "local"], ["usr", "local", "bin"],
  ["usr", "local", "include"], ["usr", "local", "lib"], ["usr", "local", "share"], ["usr", "sbin"],
  ["usr", "share"], ["usr", "src"], ["var"], ["var", "cache"], ["var", "lib"], ["var", "log"],
  ["var", "run"], ["var", "spool"], ["var", "tmp"]]

def streamPlaces (s : Stream) : List Place :=
  let (name, number) := match s with
    | .input => ("stdin", "0")
    | .output => ("stdout", "1")
    | .errors => ("stderr", "2")
  [["dev", name], ["dev", "fd", number], ["proc", "self", "fd", number]]

def devices : System :=
  [(["dev", "null"], .emptyDevice), (["dev", "full"], .refusing .noSpace),
    (["dev", "tty"], .refusing .noDevice)]

def files : System :=
  [(["etc", "passwd"], .file "root:x:0:0:root:/root:/bin/bash\n".toUTF8),
    (["bin", "sh"], .file ⟨#[0x7F, 0x45, 0x4C, 0x46, 0xFF]⟩)]

def usual : System :=
  directories.map (·, .directory)
    ++ [Stream.input, .output, .errors].flatMap (fun s => (streamPlaces s).map (·, .stream s))
    ++ devices ++ files

end System

end CatalogLinker.CommandLine
