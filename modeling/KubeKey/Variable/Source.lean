import KubeKey.Variable.Merge

/-!
# The file source

`pkg/variable/source/file.go`. One file per host, in one directory. A path is the
list of its components after cleaning; `filepath.Join` resolves `..`, so a host
name with slashes may lead to another directory or to none.

What `yaml.Marshal` writes is modelled by the map it was given, which is what
`yaml.Unmarshal` finds in the text. `Unmarshal` stores through a pointer or into a
map that exists; given a nil map it cannot store anything.
-/

namespace KubeKey.Variable

open KubeKey.Go

/-- The data of one host, a `map[string]any`. -/
abbrev Doc := List (String × Lit)

/-- A file: one that `Write` has made, which starts with `prefixYAML`, or any other. -/
inductive FileText where
  | generated (data : Doc)
  | other

/-- The directories, the files, and the paths at which the system refuses to create one. -/
structure FileSystem where
  dirs : List (List String)
  files : List (List String × FileText)
  refused : List String → Bool

/-- Where `yaml.Unmarshal` is told to store a map. -/
inductive Target where
  | pointer
  | map
  | nilMap

/-- `yaml.Unmarshal` on the text of a map. -/
def unmarshal (data : Doc) : Target → Except Fault Doc
  | .nilMap => .error .panic
  | _ => .ok data

end KubeKey.Variable
