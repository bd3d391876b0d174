import AbleIndex.Files.Discovery

namespace AbleIndex

/-- A file name without the extension it ends in. Without an extension nothing is left. -/
def Settings.stem (s : Settings) (file : String) : String :=
  if s.sourceExtension = "" then ""
  else String.ofList (file.toList.take (file.length - s.sourceExtension.length))

def Settings.nameBelow? (s : Settings) (parts : List String) : Option String :=
  match parts.getLast? with
  | none => none
  | some file =>
    if ¬ s.isSourceName file then none
    else if file = s.packageFile then
      if parts.dropLast = [] then none else some (".".intercalate parts.dropLast)
    else some (".".intercalate (parts.dropLast ++ [s.stem file]))

/-- The first search root that contains the path decides the name, also when it gives none. -/
def moduleName? (s : Settings) (roots : List Path) (p : Path) : Option String :=
  (roots.findSome? p.below?).bind s.nameBelow?

end AbleIndex
