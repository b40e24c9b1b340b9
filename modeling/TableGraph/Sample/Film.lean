import TableGraph.Sample.Basic

/-!
# A film rental business

Stores with their staff and payments, and films with their actors and languages.
-/

namespace TableGraph.Sample.Film

/-- The table `country`. -/
def countryEntity : Except Fault Entity :=
  entity "country"
    [generated (column "country_id" (.plain (.integer .regular))),
      column "country" (.plain .string)]
    ["country_id"]
    [link .hasMany "addresses" "address" ["country_id"] ["country_id"] false none]

/-- The table `address`. -/
def addressEntity : Except Fault Entity :=
  entity "address"
    [generated (column "address_id" (.plain (.integer .regular))),
      column "address" (.plain .string),
      column "country_id" (.plain (.integer .smallUnsigned))]
    ["address_id"]
    [link .belongsTo "country" "country" ["country_id"] ["country_id"] false none]

/-- The table `language`. -/
def languageEntity : Except Fault Entity :=
  entity "language"
    [generated (column "language_id" (.plain (.integer .regular))),
      column "name" (.plain .string)]
    ["language_id"] []

/-- The table `store`. -/
def storeEntity : Except Fault Entity :=
  entity "store"
    [generated (column "store_id" (.plain (.integer .regular))),
      column "manager_staff_id" (.plain (.integer .tinyUnsigned)),
      column "address_id" (.plain (.integer .regular))]
    ["store_id"]
    [link .belongsTo "staff" "staff" ["manager_staff_id"] ["staff_id"] false none,
      link .belongsTo "address" "address" ["address_id"] ["address_id"] false none,
      link .hasMany "employees" "staff" ["store_id"] ["store_id"] false none]

/-- The table `staff`. -/
def staffEntity : Except Fault Entity :=
  entity "staff"
    [generated (column "staff_id" (.plain (.integer .regular))),
      column "first_name" (.plain .string),
      column "last_name" (.plain .string),
      column "store_id" (.plain (.integer .regular)),
      nullable (column "reports_to_id" (.plain (.integer .regular))),
      defaulted (column "active" (.plain .bool)),
      hidden (nullable (column "password" (.plain .string)))]
    ["staff_id"]
    [link .belongsTo "store" "store" ["store_id"] ["store_id"] false none,
      link .belongsTo "self_ref" "staff" ["reports_to_id"] ["staff_id"] true none,
      link .hasMany "payments" "payment" ["staff_id"] ["staff_id"] false none]

/-- The table `payment`. -/
def paymentEntity : Except Fault Entity :=
  entity "payment"
    [generated (column "payment_id" (.plain (.integer .regular))),
      column "staff_id" (.plain (.integer .regular)),
      column "amount" (.plain .decimal),
      column "payment_date" (.plain .dateTime)]
    ["payment_id"]
    [link .belongsTo "staff" "staff" ["staff_id"] ["staff_id"] false none]

/-- The table `actor`. -/
def actorEntity : Except Fault Entity :=
  entity "actor"
    [generated (column "actor_id" (.plain (.integer .regular))),
      column "first_name" (.plain .string),
      column "last_name" (.plain .string)]
    ["actor_id"]
    [link .manyToMany "films" "film" ["actor_id"] ["film_id"] false
        (some ⟨"film_actor", ["actor_id"], ["film_id"]⟩)]

/-- The table `film`. -/
def filmEntity : Except Fault Entity :=
  entity "film"
    [generated (column "film_id" (.plain (.integer .regular))),
      column "title" (.plain .string),
      column "language_id" (.plain (.integer .regular)),
      nullable (column "rating" (.enumeration "mpaa_rating"))]
    ["film_id"]
    [link .belongsTo "language" "language" ["language_id"] ["language_id"] false none,
      link .manyToMany "actors" "actor" ["film_id"] ["actor_id"] false
        (some ⟨"film_actor", ["film_id"], ["actor_id"]⟩)]

/-- The table `film_actor`. -/
def filmActorEntity : Except Fault Entity :=
  entity "film_actor"
    [column "actor_id" (.plain (.integer .regular)),
      column "film_id" (.plain (.integer .regular)),
      column "last_update" (.plain .dateTime)]
    ["actor_id", "film_id"]
    [link .belongsTo "actor" "actor" ["actor_id"] ["actor_id"] false none,
      link .belongsTo "film" "film" ["film_id"] ["film_id"] false none]

/-- The schema. -/
def schema : Except Fault Schema :=
  schemaOf [countryEntity, addressEntity, languageEntity, storeEntity, staffEntity, paymentEntity,
    actorEntity, filmEntity, filmActorEntity]
    [("mpaa_rating", ["G", "PG", "PG-13", "R", "NC-17"])]

/-- Rows of the table `country`. -/
def countryRows : List Record :=
  rows ["country_id", "country"] [
    [.int 1, .text "Afghanistan"],
    [.int 2, .text "Algeria"],
    [.int 3, .text "American Samoa"],
    [.int 4, .text "Angola"],
    [.int 5, .text "Anguilla"],
    [.int 6, .text "Argentina"],
    [.int 7, .text "Armenia"]]

/-- Rows of the table `address`. -/
def addressRows : List Record :=
  rows ["address_id", "address", "country_id"] [
    [.int 1, .text "47 MySakila Drive", .int 1],
    [.int 2, .text "28 MySQL Boulevard", .int 2]]

/-- Rows of the table `language`. -/
def languageRows : List Record :=
  rows ["language_id", "name"] [
    [.int 1, .text "English"],
    [.int 2, .text "Italian"]]

/-- Rows of the table `store`. -/
def storeRows : List Record :=
  rows ["store_id", "manager_staff_id", "address_id"] [
    [.int 1, .int 1, .int 1],
    [.int 2, .int 2, .int 2]]

/-- Rows of the table `staff`. -/
def staffRows : List Record :=
  rows ["staff_id", "first_name", "last_name", "store_id", "reports_to_id", "active"] [
    [.int 1, .text "Mike", .text "Hillyer", .int 1, .null, .bool true],
    [.int 2, .text "Jon", .text "Stephens", .int 2, .int 1, .bool true],
    [.int 3, .text "Ann", .text "Lee", .int 1, .int 1, .bool false]]

/-- Rows of the table `payment`. -/
def paymentRows : List Record :=
  rows ["payment_id", "staff_id", "amount", "payment_date"] [
    [.int 1, .int 1, decimal "12.99", moment "2025-01-02T12:00:00"],
    [.int 2, .int 2, decimal "12.99", moment "2025-01-03T12:00:00"],
    [.int 3, .int 1, decimal "12.99", moment "2025-01-04T12:00:00"],
    [.int 4, .int 2, decimal "1.99", moment "2025-01-05T12:00:00"],
    [.int 5, .int 1, decimal "12.99", moment "2025-01-06T12:00:00"],
    [.int 6, .int 2, decimal "12.99", moment "2025-01-07T12:00:00"],
    [.int 7, .int 1, decimal "12.99", moment "2025-01-08T12:00:00"],
    [.int 8, .int 2, decimal "1.99", moment "2025-01-09T12:00:00"],
    [.int 9, .int 1, decimal "12.99", moment "2025-01-10T12:00:00"],
    [.int 10, .int 2, decimal "12.99", moment "2025-01-11T12:00:00"],
    [.int 11, .int 1, decimal "12.99", moment "2025-01-12T12:00:00"],
    [.int 12, .int 2, decimal "1.99", moment "2025-01-13T12:00:00"],
    [.int 13, .int 1, decimal "12.99", moment "2025-01-14T12:00:00"],
    [.int 14, .int 2, decimal "12.99", moment "2025-01-15T12:00:00"],
    [.int 15, .int 1, decimal "12.99", moment "2025-01-16T12:00:00"],
    [.int 16, .int 2, decimal "1.99", moment "2025-01-17T12:00:00"],
    [.int 17, .int 1, decimal "12.99", moment "2025-01-18T12:00:00"],
    [.int 18, .int 2, decimal "12.99", moment "2025-01-19T12:00:00"],
    [.int 19, .int 1, decimal "12.99", moment "2025-01-20T12:00:00"],
    [.int 20, .int 2, decimal "1.99", moment "2025-01-21T12:00:00"]]

/-- Rows of the table `actor`. -/
def actorRows : List Record :=
  rows ["actor_id", "first_name", "last_name"] [
    [.int 1, .text "PENELOPE", .text "GUINESS"],
    [.int 2, .text "NICK", .text "WAHLBERG"],
    [.int 3, .text "ED", .text "CHASE"],
    [.int 4, .text "JENNIFER", .text "DAVIS"]]

/-- Rows of the table `film`. -/
def filmRows : List Record :=
  rows ["film_id", "title", "language_id", "rating"] [
    [.int 1, .text "ACADEMY DINOSAUR", .int 1, .text "PG"],
    [.int 2, .text "ACE GOLDFINGER", .int 1, .text "G"],
    [.int 3, .text "ADAPTATION HOLES", .int 2, .text "NC-17"]]

/-- Rows of the table `film_actor`. -/
def filmActorRows : List Record :=
  rows ["actor_id", "film_id", "last_update"] [
    [.int 1, .int 1, moment "2006-02-15T05:05:03"],
    [.int 1, .int 3, moment "2006-02-15T05:05:03"],
    [.int 2, .int 3, moment "2006-02-15T05:05:03"],
    [.int 3, .int 1, moment "2006-02-15T05:05:03"],
    [.int 3, .int 3, moment "2006-02-15T05:05:03"],
    [.int 4, .int 2, moment "2006-02-15T05:05:03"]]

/-- The rows of all tables. -/
def seed : List (String × List Record) :=
  [("country", countryRows), ("address", addressRows), ("language", languageRows),
    ("store", storeRows), ("staff", staffRows), ("payment", paymentRows), ("actor", actorRows),
    ("film", filmRows), ("film_actor", filmActorRows)]

end TableGraph.Sample.Film
