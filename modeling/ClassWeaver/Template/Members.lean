import ClassWeaver.Template.Writing

set_option autoImplicit false

/-!
The templates of a class file. A member begins with its indentation and ends without a line break.
-/

namespace ClassWeaver.Template.Members

def package : Template :=
  ["package ", var "packageName", ";"]

def importLine : Template :=
  ["import ", var "qualifiedName", ";"]

def classDecl : Template :=
  inOrder [
    line ["public class ", var "name", when "superClass" [" extends ", var "superClass"]],
    ["\x7b"]]

def classEnd : Template :=
  ["\x7d"]

def attributeDecl : Template :=
  inOrder [
    line ["   public static final String PROPERTY_", var "name", " = \"", var "name", "\";"],
    line [],
    ["   private ", var "type", " ", var "name", when "init" [" = ", var "init"], ";"]]

def attributeGetter : Template :=
  inOrder [
    line ["   public ", var "type", " get", var "capName", "()"],
    line ["   \x7b"],
    line ["      return this.", var "name", ";"],
    ["   \x7d"]]

/-- A setter that skips unchanged values and tells listeners if the property is a bean. -/
def attributeSetter : Template :=
  inOrder [
    line ["   public ", var "className", " set", var "capName", "(", var "type", " value)"],
    line ["   \x7b"],
    line ["      if (Objects.equals(value, this.", var "name", "))"],
    line ["      \x7b"],
    line ["         return this;"],
    line ["      \x7d"],
    line [],
    line ["      final ", var "type", " oldValue = this.", var "name", ";"],
    line ["      this.", var "name", " = value;"],
    [when "bean"
      (line ["      this.firePropertyChange(PROPERTY_", var "name", ", oldValue, value);"])],
    line ["      return this;"],
    ["   \x7d"]]

def plainSetter : Template :=
  inOrder [
    line ["   public ", var "className", " set", var "capName", "(", var "type", " value)"],
    line ["   \x7b"],
    line ["      this.", var "name", " = value;"],
    line ["      return this;"],
    ["   \x7d"]]

def roleOneDecl : Template :=
  inOrder [
    line ["   public static final String PROPERTY_", var "name", " = \"", var "name", "\";"],
    line [],
    ["   private ", var "otherClass", " ", var "name", ";"]]

/-- The setter of a role with one partner, which keeps the other end in step. -/
def roleOneSetter : Template :=
  inOrder [
    line ["   public ", var "className", " set", var "capName", "(", var "otherClass", " value)"],
    line ["   \x7b"],
    line ["      if (this.", var "name", " == value)"],
    line ["      \x7b"],
    line ["         return this;"],
    line ["      \x7d"],
    line [],
    line ["      final ", var "otherClass", " oldValue = this.", var "name", ";"],
    line ["      if (this.", var "name", " != null)"],
    line ["      \x7b"],
    line ["         this.", var "name", " = null;"],
    [when "otherNamed"
      [either "otherMany"
        (line ["         oldValue.without", var "otherCapName", "(this);"])
        (line ["         oldValue.set", var "otherCapName", "(null);"])]],
    line ["      \x7d"],
    line ["      this.", var "name", " = value;"],
    line ["      if (value != null)"],
    line ["      \x7b"],
    [when "otherNamed"
      [either "otherMany"
        (line ["         value.with", var "otherCapName", "(this);"])
        (line ["         value.set", var "otherCapName", "(this);"])]],
    line ["      \x7d"],
    [when "bean"
      (line ["      this.firePropertyChange(PROPERTY_", var "name", ", oldValue, value);"])],
    line ["      return this;"],
    ["   \x7d"]]

def roleManyDecl : Template :=
  inOrder [
    line ["   public static final String PROPERTY_", var "name", " = \"", var "name", "\";"],
    line [],
    ["   private List<", var "otherClass", "> ", var "name", ";"]]

/-- The getter of a role with many partners, which cannot be changed through it. -/
def roleManyGetter : Template :=
  inOrder [
    line ["   public List<", var "otherClass", "> get", var "capName", "()"],
    line ["   \x7b"],
    line ["      return this.", var "name", " != null ? Collections.unmodifiableList(this.",
          var "name", ") : Collections.emptyList();"],
    ["   \x7d"]]

def roleManyWith : Template :=
  inOrder [
    line ["   public ", var "className", " with", var "capName", "(", var "otherClass",
          "... value)"],
    line ["   \x7b"],
    line ["      if (this.", var "name", " == null)"],
    line ["      \x7b"],
    line ["         this.", var "name", " = new ", var "roleType", "<>();"],
    line ["      \x7d"],
    line ["      for (final ", var "otherClass", " item : value)"],
    line ["      \x7b"],
    line ["         if (!this.", var "name", ".contains(item))"],
    line ["         \x7b"],
    line ["            this.", var "name", ".add(item);"],
    [when "otherNamed"
      [either "otherMany"
        (line ["            item.with", var "otherCapName", "(this);"])
        (line ["            item.set", var "otherCapName", "(this);"])]],
    [when "bean"
      (line ["            this.firePropertyChange(PROPERTY_", var "name", ", null, item);"])],
    line ["         \x7d"],
    line ["      \x7d"],
    line ["      return this;"],
    ["   \x7d"]]

def roleManyWithout : Template :=
  inOrder [
    line ["   public ", var "className", " without", var "capName", "(", var "otherClass",
          "... value)"],
    line ["   \x7b"],
    line ["      if (this.", var "name", " == null)"],
    line ["      \x7b"],
    line ["         return this;"],
    line ["      \x7d"],
    line ["      for (final ", var "otherClass", " item : value)"],
    line ["      \x7b"],
    line ["         if (this.", var "name", ".remove(item))"],
    line ["         \x7b"],
    [when "otherNamed"
      [either "otherMany"
        (line ["            item.without", var "otherCapName", "(this);"])
        (line ["            item.set", var "otherCapName", "(null);"])]],
    [when "bean"
      (line ["            this.firePropertyChange(PROPERTY_", var "name", ", item, null);"])],
    line ["         \x7d"],
    line ["      \x7d"],
    line ["      return this;"],
    ["   \x7d"]]

def listenersDecl : Template :=
  ["   protected PropertyChangeSupport listeners;"]

def firePropertyChange : Template :=
  inOrder [
    line [
      "   public boolean firePropertyChange(",
      "String propertyName, Object oldValue, Object newValue)"],
    line ["   \x7b"],
    line ["      if (this.listeners != null)"],
    line ["      \x7b"],
    line ["         this.listeners.firePropertyChange(propertyName, oldValue, newValue);"],
    line ["         return true;"],
    line ["      \x7d"],
    line ["      return false;"],
    ["   \x7d"]]

def listenersGetter : Template :=
  inOrder [
    line ["   public PropertyChangeSupport listeners()"],
    line ["   \x7b"],
    line ["      if (this.listeners == null)"],
    line ["      \x7b"],
    line ["         this.listeners = new PropertyChangeSupport(this);"],
    line ["      \x7d"],
    line ["      return this.listeners;"],
    ["   \x7d"]]

def method : Template :=
  inOrder [
    line ["   ", var "declaration"],
    line ["   \x7b"],
    line ["      ", var "body"],
    ["   \x7d"]]

def toText : Template :=
  inOrder [
    line ["   @Override"],
    line ["   public String toString()"],
    line ["   \x7b"],
    line ["      final StringBuilder result = new StringBuilder();"],
    [forEach "names" (line ["      result.append(' ').append(this.get", item, "());"])],
    line ["      return result.substring(1);"],
    ["   \x7d"]]

def removeYou : Template :=
  inOrder [
    line ["   public void removeYou()"],
    line ["   \x7b"],
    [forEach "roles"
        [either "many"
        (line ["      this.without", var "capName", "(this.get", var "capName",
                      "().toArray(new ", var "otherClass", "[0]));"])
        (line ["      this.set", var "capName", "(null);"])]],
    ["   \x7d"]]

end ClassWeaver.Template.Members
