import ModelPreview.Generated.Basic

/-!
# Printing generated declarations

A declaration is its header and its members between braces, one member a line. A blank line stands
between two neighbours of different groups. A declaration without members ends in an empty pair of
braces.
-/

namespace ModelPreview.Generated

def Kind.text : Kind → String
  | .protocol => "protocol"
  | .struct => "struct"
  | .class => "class"

def Member.text : Member → String
  | .associatedType name conformance => "associatedtype " ++ name ++ ": " ++ conformance
  | .propertyRequirement name type => "var " ++ name ++ ": " ++ type ++ " \x7b get set \x7d"
  | .storedProperty keyword name type defaultValue =>
    keyword.text ++ " " ++ name ++ ": " ++ type ++ optionalPart " = " defaultValue
  | .initializer i => i.text

/-- `mark` and the texts with commas between them, or nothing if there are none. -/
def listPart (mark : String) (texts : List String) : String :=
  if texts.isEmpty then "" else mark ++ ", ".intercalate texts

namespace Declaration

/-- Everything in front of the braces. -/
def header (d : Declaration) : String :=
  String.join (d.attributes.map (· ++ "\n")) ++ String.join (d.modifiers.map (· ++ " ")) ++
    d.kind.text ++ " " ++ d.name ++ listPart ": " d.inherited ++ listPart " where " d.whereClause

/-- The line of one member. -/
def memberLine (indent : String) (m : Member) : String :=
  indent ++ m.text ++ "\n"

/-- The lines of members that follow a member of group `previous`. -/
def linesAfter (indent : String) (previous : Group) : List Member → String
  | [] => ""
  | m :: rest =>
    (if m.group = previous then "" else "\n") ++ memberLine indent m ++
      linesAfter indent m.group rest

/-- The lines of all members, with blank lines between groups. -/
def memberLines (indent : String) : List Member → String
  | [] => ""
  | m :: rest => memberLine indent m ++ linesAfter indent m.group rest

/-- The text of a declaration. -/
def text (indent : String) (d : Declaration) : String :=
  if d.members.isEmpty then d.header ++ " \x7b\x7d"
  else d.header ++ " \x7b\n" ++ memberLines indent d.members ++ "\x7d"

end Declaration

end ModelPreview.Generated
