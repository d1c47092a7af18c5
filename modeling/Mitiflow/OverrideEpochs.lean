import Mitiflow.OverrideManager

namespace Mitiflow

open Library List

/-!
# Epochs of published overrides

An agent keeps the table of highest epoch it has received, and of several with
that epoch the first.  A manager counts its epochs in memory, so a manager that
is started again begins with epoch one.
-/

/-- What an agent does with a received table; none stands for bytes that do
not parse. -/
def overrideWatcher
    (overrides : OverrideTable) : Option OverrideTable → OverrideTable
  | some table => if overrides.epoch < table.epoch then table else overrides
  | none => overrides

/-- The arguments of a call of `publish_entries`, and its time. -/
structure Publication where
  entries : List OverrideEntry
  ttl : Option Nat
  now : DateTime
  deriving Repr, DecidableEq

/-- What a publication puts into the table besides the epoch. -/
def Publication.content (publication : Publication) :
    List OverrideEntry × Option DateTime :=
  (publication.entries, expiresAt publication.ttl publication.now)

namespace OverrideManager

def published :
    OverrideManager → List Publication → List OverrideTable
  | _, [] => []
  | manager, publication :: rest =>
    let next :=
      manager.publishEntries publication.entries publication.ttl
        publication.now
    next.current :: next.published rest

end OverrideManager

/-- The publications of one manager, from its start. -/
abbrev ManagerSession := List Publication

namespace ManagerSession

def tables (session : ManagerSession) : List OverrideTable :=
  OverrideManager.new.published session

variable {session : ManagerSession} {table : OverrideTable}

end ManagerSession

/-! ## What an agent ends with -/

variable {deliveries : List OverrideTable} {session : ManagerSession}

end Mitiflow
