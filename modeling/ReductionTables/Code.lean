import ReductionTables.Document
import ReductionTables.Tables

/-!
# Generated code

Generated code is a list of lines, each indented by its depth. Two files are generated: a header, which
does not depend on the rows, and a source. Both put their declarations into the same two nested
namespaces.
-/

namespace ReductionTables.Code

/-! ## Lines -/

/-- A line of code at a depth of nesting, four spaces for each level. -/
def indent (depth : Nat) (line : Text) : Text := List.replicate (4 * depth) ' ' ++ line

/-- The namespaces of the generated declarations, the outer one first. -/
def namespaces : List Text := ["Halide", "Internal"]

def openNamespaces : List Text :=
  namespaces.map (fun n => "namespace ".toList ++ n ++ " \x7b".toList) ++ [[]]

def closeNamespaces : List Text := [[]] ++ namespaces.map (fun _ => "\x7d".toList) ++ [[]]

/-! ## The header

It declares the type of a row and the function that looks up a table.
-/

/-- The macro that guards the header against being read twice. -/
def guardMacro : Text := "HALIDE_ASSOCIATIVE_OPS_TABLE_H"

/-- The type of a row: an operation and its identity. -/
def pairDeclaration : List Text := [
  "struct AssociativePair \x7b",
  indent 1 "Expr op;",
  indent 1 "Expr identity;",
  "",
  indent 1 "AssociativePair() \x7b\x7d",
  indent 1 "AssociativePair(Expr op) : op(op) \x7b\x7d",
  indent 1 "AssociativePair(Expr op, Expr id) : op(op), identity(id) \x7b\x7d",
  "\x7d;"]

def headerOpening : List Text := [
  "#ifndef ".toList ++ guardMacro,
  "#define ".toList ++ guardMacro,
  "",
  "/** \\file",
  " * Tables listing associative operators and their identities.",
  " */",
  "",
  "#include \"Halide.h\"",
  "",
  "#include <iostream>",
  "#include <vector>",
  ""]

def lookupDeclaration : Text :=
  "const std::vector<std::vector<AssociativePair>> &get_i32_ops_table(const std::vector<Expr> &exprs);"

def headerLines : List Text :=
  headerOpening ++ openNamespaces ++ pairDeclaration ++ [[], lookupDeclaration] ++
    closeNamespaces ++ ["#endif".toList]

def header : Text := Text.unlines headerLines

/-! ## The source

It declares the names that rows use, prints each table in a function of its own, and defines the
look-up that chooses a table by the root of the first expression and the number of expressions. It ends
with a small program that tries the look-up.
-/

/-! ### Names -/

/-- The declaration of a constant of the generated code. -/
structure Declaration where
  type : Text
  name : Text
  /-- The value, as an expression of the generated code. -/
  value : Text
deriving DecidableEq, Repr

namespace Declaration

def line (d : Declaration) : Text :=
  "const ".toList ++ d.type ++ " ".toList ++ d.name ++ " = ".toList ++ d.value ++ ";".toList

/-- Declares a name that stands for a variable of the expressions. -/
def ofVariable (name word : Text) : Declaration :=
  ⟨"Expr", name, "Variable::make(i32, \"".toList ++ word ++ "\")".toList⟩

/-- The type of the values and the names of its boundary values. -/
def ofValues : List Declaration := [
  ⟨"Type", "i32", "Int(32)"⟩,
  ⟨"Expr", "i32_zero", "make_const(i32, 0)"⟩,
  ⟨"Expr", "i32_one", "make_const(i32, 1)"⟩,
  ⟨"Expr", "i32_tmax", "i32.max()"⟩,
  ⟨"Expr", "i32_tmin", "i32.min()"⟩]

def ofVariables : List Declaration := Variable.all.map fun v => ofVariable v.atom v.name

def ofConstants (cs : List Constant) : List Declaration := cs.map fun c => ofVariable c.name c.word

def ofShorthands (ss : List Shorthand) : List Declaration :=
  ss.map fun s => ⟨"Expr", s.atom, s.pattern⟩

/-- All names that rows use, in groups. -/
def groups (t : Tables) : List (List Declaration) :=
  [ofValues, ofVariables, ofConstants t.constants] ++ Shorthand.groups.map ofShorthands

end Declaration

/-- The lines of a group of declarations and an empty line after them, unless there are none. -/
def declarationLines (group : List Declaration) : List Text :=
  if group.isEmpty then [] else group.map Declaration.line ++ [[]]

/-! ### Tables -/

def tableType : Text := "vector<vector<AssociativePair>>"

/-- The name of the function that returns the table of a slot. -/
def tableFunctionName (s : Slot) : Text :=
  "get_".toList ++ s.arity.name ++ "_i32_ops_table_".toList ++ s.operator.lowerName

/-- The identity as a typed constant. A literal is written by its value; a name stays as it is. -/
def identityValue (identity : Text) : Text :=
  match Text.signed64? identity with
  | some i => "make_const(i32, ".toList ++ Text.ofInt i ++ ")".toList
  | none => identity

def rowLine (r : Row) : Text :=
  "\x7b\x7b".toList ++ r.expression ++ ", ".toList ++ identityValue r.identity ++ "\x7d\x7d,".toList

def tableDefinition (rows : List Row) : List Text :=
  if rows.isEmpty then [indent 1 ("static const ".toList ++ tableType ++ " exprs;".toList)]
  else
    [indent 1 ("static const ".toList ++ tableType ++ " exprs = \x7b".toList)] ++
      rows.map (fun r => indent 2 (rowLine r)) ++ [indent 1 "\x7d;"]

/-- The function that returns the table of a slot. -/
def tableFunction (t : Tables) (s : Slot) : List Text :=
  ["const ".toList ++ tableType ++ " &".toList ++ tableFunctionName s ++ "() \x7b".toList] ++
    tableDefinition (t.rows s) ++ [indent 1 "return exprs;", "\x7d".toList, []]

/-! ### Look-up -/

/-- The operators in the order in which the look-up tests for them. -/
def lookupOrder : List Operator := [.add, .sub, .mul, .min, .max]

/-- The branch of the look-up for an operator, which opens with the given keyword. -/
def lookupBranch (keyword : Text) (o : Operator) : List Text := [
  indent 1 (keyword ++ " (exprs[0].as<".toList ++ o.name ++ ">()) \x7b".toList),
  indent 2 ("debug(5) << \"Returning ".toList ++ o.lowerName ++ " root table\\n\";".toList),
  indent 2 "if (exprs.size() == 1) \x7b",
  indent 3 ("return ".toList ++ tableFunctionName ⟨o, .single⟩ ++ "();".toList),
  indent 2 "\x7d else \x7b",
  indent 3 ("return ".toList ++ tableFunctionName ⟨o, .double⟩ ++ "();".toList),
  indent 2 "\x7d"]

def lookupBranches : List Operator → List Text
  | [] => []
  | o :: os => lookupBranch "if" o ++ os.flatMap (lookupBranch "\x7d else if")

/-- The beginning of the look-up, which has no table for no expressions. -/
def lookupOpening : List Text := [
  "const std::vector<std::vector<AssociativePair>> &get_i32_ops_table(const vector<Expr> &exprs) \x7b",
  indent 1 "static const std::vector<std::vector<AssociativePair>> empty;",
  indent 1 "if (exprs.empty()) \x7b",
  indent 2 "return empty;",
  indent 1 "\x7d"]

/-- The end of the look-up, which is reached with any other operator. -/
def lookupClosing : List Text := [
  indent 1 "\x7d",
  indent 1 "debug(5) << \"Returning empty table\\n\";",
  indent 1 "return empty;",
  "\x7d"]

def lookup : List Text := lookupOpening ++ lookupBranches lookupOrder ++ lookupClosing

/-! ### The whole file -/

/-- The program that tries the look-up on a minimum of two variables. -/
def trial : List Text := [
  "using namespace Halide;",
  "using namespace Halide::Internal;",
  "",
  "int main() \x7b",
  indent 1 "Expr x = Variable::make(Int(32), \"x\");",
  indent 1 "Expr y = Variable::make(Int(32), \"y\");",
  indent 1 "Expr expr = Min::make(x, y);",
  indent 1 "const auto &table = get_i32_ops_table(\x7bexpr\x7d);",
  indent 1 "if (table.empty()) \x7b",
  indent 2 "std::cout << \"Empty min table\\n\";",
  indent 2 "return 1;",
  indent 1 "\x7d",
  indent 1
    "std::cout << \"Op: \" << table[0][0].op << \" with id: \" << table[0][0].identity << \"\\n\";",
  indent 1 "return 0;",
  "\x7d"]

def sourceOpening : List Text := [
  "#include \"".toList ++ Document.header.fileName ++ "\"".toList,
  "",
  "using std::vector;",
  ""]

/-- The part of the source that is hidden from other files: names and tables. -/
def hiddenPart (t : Tables) : List Text :=
  ["namespace \x7b".toList, []] ++ (Declaration.groups t).flatMap declarationLines ++
    Slot.all.flatMap (tableFunction t) ++ ["\x7d  // namespace".toList, []]

def sourceLines (t : Tables) : List Text :=
  sourceOpening ++ openNamespaces ++ hiddenPart t ++ lookup ++ closeNamespaces ++ trial

def source (t : Tables) : Text := Text.unlines (sourceLines t)

end ReductionTables.Code
