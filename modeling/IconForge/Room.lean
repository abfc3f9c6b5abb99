set_option autoImplicit false

/-! # Room

Some steps of a run descend: into the values inside of a value that is read or written, up the
directories that are missing on the way to a path, and down the directories of a tree that is
searched. How far they get depends on how deep the calls that led to them are inside of each other
already, and so on whoever runs the program. What a run has room for is a parameter of it. -/

namespace IconForge

/-- How far the steps of a run descend. -/
structure Room where
  /-- How many lists and objects may be inside of each other in a configuration. -/
  reading : Nat
  /-- After how many characters the writing of a record breaks off, by the text of the record;
  `none` when it is written as a whole. -/
  writing : String → Option Nat
  /-- How many directories are made at once for a component. -/
  making : Nat
  /-- How many directories are made at once for a report or a record. -/
  filing : Nat
  /-- How many levels below its start a search goes. -/
  searching : Nat

/-- The same room for every step that descends, and for records of any size. -/
def Room.ofLevels (levels : Nat) : Room where
  reading := levels
  writing _ := none
  making := levels
  filing := levels
  searching := levels

end IconForge
