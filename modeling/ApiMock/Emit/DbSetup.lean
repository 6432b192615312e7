import ApiMock.Blueprint.Basic
import ApiMock.Emit.Lines
/-!
# Emit — the database file

The file that opens the database with one store for every group, and the
functions that all stores share.
-/

namespace ApiMock

namespace Emit

/-- The lines before the names of the stores. -/
def setupHead : List String := [
  "// Generated IndexedDB Setup",
  "import \x7b defaultConfig \x7d from '../config/api-config';",
  "",
  "export interface DbRecord \x7b",
  "  id: string;",
  "  createdAt: Date;",
  "  updatedAt: Date;",
  "  [key: string]: any;",
  "\x7d",
  "",
  "export const STORE_NAMES = ["]

/-- The lines behind the names of the stores. -/
def setupTail : List String := [
  "];",
  "",
  "export class DatabaseManager \x7b",
  "  private db: IDBDatabase | null = null;",
  "  private dbName: string;",
  "  private version: number = 1;",
  "",
  "  constructor(dbName: string = defaultConfig.dbName) \x7b",
  "    this.dbName = dbName;",
  "  \x7d",
  "",
  "  async init(): Promise<void> \x7b",
  "    if (this.db) \x7b",
  "      return;",
  "    \x7d",
  "",
  "    return new Promise((resolve, reject) => \x7b",
  "      const request = indexedDB.open(this.dbName, this.version);",
  "",
  "      request.onerror = () => \x7b",
  "        reject(new Error(`Failed to open database: $\x7brequest.error\x7d`));",
  "      \x7d;",
  "",
  "      request.onsuccess = () => \x7b",
  "        this.db = request.result;",
  "        resolve();",
  "      \x7d;",
  "",
  "      request.onupgradeneeded = (event) => \x7b",
  "        const db = (event.target as IDBOpenDBRequest).result;",
  "        this.createObjectStores(db);",
  "      \x7d;",
  "    \x7d);",
  "  \x7d",
  "",
  "  private createObjectStores(db: IDBDatabase): void \x7b",
  "    STORE_NAMES.forEach(storeName => \x7b",
  "      if (!db.objectStoreNames.contains(storeName)) \x7b",
  "        const store = db.createObjectStore(storeName, \x7b keyPath: 'id' \x7d);",
  "        store.createIndex('createdAt', 'createdAt', \x7b unique: false \x7d);",
  "        store.createIndex('updatedAt', 'updatedAt', \x7b unique: false \x7d);",
  "      \x7d",
  "    \x7d);",
  "  \x7d",
  "",
  "  getDatabase(): IDBDatabase \x7b",
  "    if (!this.db) \x7b",
  "      throw new Error('Database not initialized. Call init() first.');",
  "    \x7d",
  "    return this.db;",
  "  \x7d",
  "",
  "  async close(): Promise<void> \x7b",
  "    if (this.db) \x7b",
  "      this.db.close();",
  "      this.db = null;",
  "    \x7d",
  "  \x7d",
  "",
  "  async clearDatabase(): Promise<void> \x7b",
  "    await this.init();",
  "    const db = this.getDatabase();",
  "    const storeNames = Array.from(db.objectStoreNames);",
  "    const transaction = db.transaction(storeNames, 'readwrite');",
  "",
  "    await Promise.all(storeNames.map(storeName => new Promise<void>((resolve, reject) => \x7b",
  "      const request = transaction.objectStore(storeName).clear();",
  "      request.onsuccess = () => resolve();",
  "      request.onerror = () => reject(request.error);",
  "    \x7d)));",
  "  \x7d",
  "\x7d",
  "",
  "// Singleton instance",
  "export const dbManager = new DatabaseManager();",
  "",
  "export function generateId(): string \x7b",
  "  return Date.now().toString(36) + Math.random().toString(36).slice(2);",
  "\x7d",
  "",
  "export function createDbRecord<T extends object>(data: T): DbRecord & T \x7b",
  "  const now = new Date();",
  "  return \x7b",
  "    id: generateId(),",
  "    createdAt: now,",
  "    updatedAt: now,",
  "    ...data",
  "  \x7d;",
  "\x7d",
  "",
  "export function updateDbRecord<T extends DbRecord>(record: T, updates: Partial<T>): T \x7b",
  "  return \x7b",
  "    ...record,",
  "    ...updates,",
  "    id: record.id,",
  "    updatedAt: new Date()",
  "  \x7d;",
  "\x7d",
  "",
  "export function queryByFilter<T extends DbRecord>(records: T[], filter: Record<string, any>): T[] \x7b",
  "  return records.filter(record =>",
  "    Object.entries(filter).every(([key, value]) =>",
  "      value === undefined || value === null || record[key] === value",
  "    )",
  "  );",
  "\x7d",
  "",
  "export function sortRecords<T extends DbRecord>(",
  "  records: T[],",
  "  sortBy: string,",
  "  sortOrder: 'asc' | 'desc' = 'asc'",
  "): T[] \x7b",
  "  return [...records].sort((a, b) => \x7b",
  "    if (a[sortBy] < b[sortBy]) return sortOrder === 'asc' ? -1 : 1;",
  "    if (a[sortBy] > b[sortBy]) return sortOrder === 'asc' ? 1 : -1;",
  "    return 0;",
  "  \x7d);",
  "\x7d",
  "",
  "export function paginateRecords<T extends DbRecord>(",
  "  records: T[],",
  "  page: number = 1,",
  "  pageSize: number = 10",
  "): \x7b data: T[]; total: number; page: number; pageSize: number; hasNext: boolean; hasPrevious: boolean \x7d \x7b",
  "  const startIndex = (page - 1) * pageSize;",
  "  const endIndex = startIndex + pageSize;",
  "  return \x7b",
  "    data: records.slice(startIndex, endIndex),",
  "    total: records.length,",
  "    page,",
  "    pageSize,",
  "    hasNext: endIndex < records.length,",
  "    hasPrevious: page > 1",
  "  \x7d;",
  "\x7d"]

/-- The line that lists the store of a group. -/
def storeLine (g : Group) : String :=
  "  '" ++ g.slug ++ "',"

/-- The lines that open the database. -/
def setupLines (groups : List Group) : List String :=
  setupHead ++ groups.map storeLine ++ setupTail

/-- The file that opens the database. -/
def setupFile (groups : List Group) : String := unlines (setupLines groups)

end Emit

end ApiMock
