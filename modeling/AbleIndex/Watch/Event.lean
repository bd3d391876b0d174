namespace AbleIndex

inductive EventKind
  | modified
  | created
  | deleted
  | moved
  | opened
  | closed
  | closedUnwritten
  deriving DecidableEq, Inhabited

def EventKind.isPassive : EventKind → Bool
  | opened => true
  | closed => true
  | closedUnwritten => true
  | _ => false

structure FileEvent where
  kind : EventKind
  source : String
  destination : String := ""
  isDirectory : Bool := false
  deriving DecidableEq, Inhabited

def FileEvent.isRelevant (e : FileEvent) (extension : String) : Bool :=
  let isSource (p : String) : Bool := extension.toList.isSuffixOf p.toList
  !e.isDirectory && !e.kind.isPassive &&
    (isSource e.source || (e.destination ≠ "" && isSource e.destination))

end AbleIndex
