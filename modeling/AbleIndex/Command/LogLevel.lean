namespace AbleIndex

inductive LogLevelError
  | namesText
  | namesTable
  deriving DecidableEq

/-- The log keeps its format and its table of styles under names like those of its levels. -/
def checkLogLevel (name : String) : Except LogLevelError Unit :=
  if name = "BASIC_FORMAT" then .error .namesText
  else if name = "_STYLES" then .error .namesTable
  else .ok ()

end AbleIndex
