import ListQuery.Condition.Recorder
import ListQuery.Filter.Constraint
import ListQuery.Request.Basic

/-!
# Samples

A recorder, a filter and a request that between them use most of what the library has: declared
relations, document paths, every combinator, several operators on one field, and a page.
-/

namespace ListQuery.Sample

open Json (Value)

/-- A recorder for a table of users with two relations. -/
def usersRecorder : Recorder :=
  (({ table := "users" } : Recorder).withRelation "author").withRelation "order_items"

/-- A filter with one constrained field. -/
def single (path : String) (c : Constraints) : Filter :=
  ({} : Filter).withField path c

/-- Active users between two ages who are administrators or have a certain author, and who are not
    banned. -/
def mixedFilter : Filter :=
  let fields : Filter :=
    (single "status" (.equalTo (.string "active"))).withField "age" {
      gte := some (.ofInt64 18)
      lt := some (.ofInt64 65) }
  { fields with
    or := [
      single "role" (.equalTo (.string "admin")),
      single "author.name" { ilike := some "ann" }]
    not := some (single "meta.flags.banned" (.equalTo (.bool true))) }

/-- The second page of ten active rows, the newest first. -/
def secondPage : Request :=
  { filter := single "status" (.equalTo (.string "active"))
    order := [{ field := "created_at", direction := .descending }]
    limit := some 10
    page := some 2 }

end ListQuery.Sample
