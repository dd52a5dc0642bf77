import ClassWeaver.Template.Writing

set_option autoImplicit false

/-!
The templates of a table file, which holds rows of objects that are linked with each other.
-/

namespace ClassWeaver.Template.Tables

def constructor : Template :=
  inOrder [
    line ["   public ", var "className", "Table(", var "className", "... start)"],
    line ["   \x7b"],
    line ["      this.setColumnName(\"A\");"],
    line ["      this.columnMap.put(\"A\", 0);"],
    line ["      for (final ", var "className", " current : start)"],
    line ["      \x7b"],
    line ["         final ArrayList<Object> row = new ArrayList<>();"],
    line ["         row.add(current);"],
    line ["         this.table.add(row);"],
    line ["      \x7d"],
    ["   \x7d"]]

/-- The name of a new column: the one that is asked for, or the next letter. -/
def newColumn : Template :=
  line ["      final String newColumnName = rowName.length > 0 ? rowName[0] : \"\" + (char) ('A'",
    " + this.columnMap.size());"]

def expandAttribute : Template :=
  inOrder [
    line ["   public ", var "className", "Table expand", var "capName", "(String... rowName)"],
    line ["   \x7b"],
    newColumn,
    line ["      final int column = this.columnMap.get(this.columnName);"],
    line ["      this.columnMap.put(newColumnName, this.columnMap.size());"],
    line ["      for (final ArrayList<Object> row : this.table)"],
    line ["      \x7b"],
    line ["         final ", var "className", " start = (", var "className",
          ") row.get(column);"],
    line ["         row.add(start.get", var "capName", "());"],
    line ["      \x7d"],
    line ["      return this;"],
    ["   \x7d"]]

def expandRole : Template :=
  inOrder [
    line ["   public ", var "otherClass", "Table expand", var "capName", "(String... rowName)"],
    line ["   \x7b"],
    newColumn,
    line ["      final ", var "otherClass", "Table result = new ", var "otherClass", "Table();"],
    line ["      result.setColumnMap(this.columnMap);"],
    line ["      result.setColumnName(newColumnName);"],
    line ["      result.setTable(this.table);"],
    line ["      final int column = this.columnMap.get(this.columnName);"],
    line ["      this.columnMap.put(newColumnName, this.columnMap.size());"],
    line ["      final ArrayList<ArrayList<Object>> oldTable = new ArrayList<>(this.table);"],
    line ["      this.table.clear();"],
    line ["      for (final ArrayList<Object> row : oldTable)"],
    line ["      \x7b"],
    line ["         final ", var "className", " start = (", var "className",
          ") row.get(column);"],
    [either "many"
        (inOrder [
          line ["         for (final ", var "otherClass", " current : start.get", var "capName",
                "())"],
          line ["         \x7b"],
          line ["            final ArrayList<Object> newRow = new ArrayList<>(row);"],
          line ["            newRow.add(current);"],
          line ["            this.table.add(newRow);"],
          line ["         \x7d"]])
        (inOrder [
          line ["         if (start.get", var "capName", "() != null)"],
          line ["         \x7b"],
          line ["            final ArrayList<Object> newRow = new ArrayList<>(row);"],
          line ["            newRow.add(start.get", var "capName", "());"],
          line ["            this.table.add(newRow);"],
          line ["         \x7d"]])],
    line ["      \x7d"],
    line ["      return result;"],
    ["   \x7d"]]

def hasRole : Template :=
  inOrder [
    line ["   public ", var "className", "Table has", var "capName", "(", var "otherClass",
          "Table rowName)"],
    line ["   \x7b"],
    line ["      final int column = this.columnMap.get(this.columnName);"],
    line ["      final int otherColumn = this.columnMap.get(rowName.getColumnName());"],
    line ["      this.table.removeIf(row -> \x7b"],
    line ["         final ", var "className", " start = (", var "className",
          ") row.get(column);"],
    line ["         final Object other = row.get(otherColumn);"],
    [either "many"
        (line ["         return !start.get", var "capName", "().contains(other);"])
        (line ["         return start.get", var "capName", "() != other;"])],
    line ["      \x7d);"],
    line ["      return this;"],
    ["   \x7d"]]

def toSet : Template :=
  inOrder [
    line ["   public LinkedHashSet<", var "className", "> toSet()"],
    line ["   \x7b"],
    line ["      final LinkedHashSet<", var "className", "> result = new LinkedHashSet<>();"],
    line ["      final int column = this.columnMap.get(this.columnName);"],
    line ["      for (final ArrayList<Object> row : this.table)"],
    line ["      \x7b"],
    line ["         result.add((", var "className", ") row.get(column));"],
    line ["      \x7d"],
    line ["      return result;"],
    ["   \x7d"]]

def toText : Template :=
  inOrder [
    line ["   @Override"],
    line ["   public String toString()"],
    line ["   \x7b"],
    line ["      final StringBuilder buf = new StringBuilder();"],
    line ["      for (final String key : this.columnMap.keySet())"],
    line ["      \x7b"],
    line ["         buf.append(key).append(\" \\t\");"],
    line ["      \x7d"],
    line ["      buf.append(\"\\n\");"],
    line ["      for (final ArrayList<Object> row : this.table)"],
    line ["      \x7b"],
    line ["         for (final Object cell : row)"],
    line ["         \x7b"],
    line ["            buf.append(cell).append(\" \\t\");"],
    line ["         \x7d"],
    line ["         buf.append(\"\\n\");"],
    line ["      \x7d"],
    line ["      buf.append(\"\\n\");"],
    line ["      return buf.toString();"],
    ["   \x7d"]]

end ClassWeaver.Template.Tables
