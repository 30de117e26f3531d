/-!
This module contains the configuration: the versions that a diagnostic mentions.
-/

namespace CallCountLint

structure Config where
  deprecatedIn : String := "5.0.0"
  removedIn : String := "6.0.0"
  deriving DecidableEq, Repr, Inhabited

def Config.message (config : Config) : String :=
  "The MustHaveHappened(Repeated) assertion is being retired, and will be deprecated in version "
    ++ config.deprecatedIn ++ " and removed in version " ++ config.removedIn ++ "."

end CallCountLint
