namespace AbleIndex.Catalog

def keywords : List String :=
  ["if", "elif", "else", "for", "of", "while", "break", "continue", "return", "async", "await",
   "class", "fun", "import", "from", "as", "true", "false", "null", "and", "or", "not", "is"]

def types : List String :=
  ["Number", "String", "Boolean", "List", "Object", "Function", "BoundMethod", "Type", "Instance",
   "Null", "Undefined", "Promise"]

def functions : List String :=
  ["pr", "input", "type", "type_name", "len", "bool", "int", "float", "str", "list", "dict",
   "range", "register_modifier", "register_decorator", "server_listen", "json_stringify",
   "json_parse", "read_text_file", "string_trim", "string_split", "string_join",
   "string_replace", "string_contains", "string_starts_with", "string_ends_with",
   "string_lower", "string_upper"]

def modules : List String :=
  ["api", "builtins", "math", "path", "random", "server", "string", "time"]

def decorators : List String :=
  ["Route", "Get", "Post", "Put", "Patch", "Delete", "Head", "Options", "Use"]

end AbleIndex.Catalog
