import Guix.LibUtil.Types

/-!
# Store paths

`isInDir` of `util.cc` and the tests of `store-api.cc` built on it. The store
directory is `settings.nixStore`.
-/

namespace Guix.LibStore

def slash : UInt8 := 47

def isInDir (path dir : Path) : Bool :=
  path[0]? == some slash && path.take dir.length == dir &&
    decide (path.length ≥ dir.length + 2) && path[dir.length]? == some slash

def isInStore (nixStore path : Path) : Bool := isInDir path nixStore

def isStorePath (nixStore path : Path) : Bool :=
  isInStore nixStore path && !(path.drop (nixStore.length + 1)).contains slash

end Guix.LibStore
